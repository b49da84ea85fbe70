import Scanout.Error
import Scanout.Framebuffer
import Scanout.Property.Bag
import Scanout.Property.Descriptor
import Scanout.Rect

namespace Scanout

structure Layer where
  output : OutputId
  properties : Property.Bag := {}
  plane : Option UInt32 := none
  priority : Nat := 0
  pendingPriority : Nat := 0
  candidatePlanes : List UInt32 := []
  /-- The caller composites the layer even if a plane could show it. -/
  forcedComposition : Bool := false
  changed : Bool := false
  framebuffer : Option Framebuffer := none
  cleanFramebuffer : Option Framebuffer := none
  deriving DecidableEq, Repr

namespace Layer

/-- Gives a property a value. The CRTC is chosen by the device, and a framebuffer ends forced
composition. -/
def setProperty (l : Layer) (name : String) (value : UInt64) : Except Error Layer :=
  if name = WellKnown.crtcId.name then .error (.reservedProperty name)
  else
    let (added, properties) := l.properties.set name value
    let l := { l with properties, changed := l.changed || added }
    if l.forcedComposition && value != 0 && name = WellKnown.fbId.name then
      .ok { l with forcedComposition := false, changed := true }
    else .ok l

/-- Removes a property; a name the layer does not have is ignored. -/
def unsetProperty (l : Layer) (name : String) : Layer :=
  let (removed, properties) := l.properties.remove name
  { l with properties, changed := l.changed || removed }

def property? (l : Layer) (name : String) : Option UInt64 :=
  (l.properties.get? name).map Property.Entry.value

def forceComposition (l : Layer) : Layer :=
  if l.forcedComposition then l
  else
    { l with
      properties := (l.properties.set WellKnown.fbId.name 0).2
      forcedComposition := true
      changed := true }

/-- The framebuffer id is set and not zero. -/
def hasFramebuffer (l : Layer) : Bool := (l.properties.value? .fbId).getD 0 != 0

/-- The layer shows up on screen: it is not fully transparent, and it has a framebuffer or is
composited by force. -/
def isVisible (l : Layer) : Bool :=
  l.properties.value? .alpha != some 0 && (l.forcedComposition || l.hasFramebuffer)

def needsComposition (l : Layer) : Bool := l.isVisible && l.plane.isNone

def zpos? (l : Layer) : Option Int := (l.properties.value? .zpos).map signed64

/-- The screen rectangle that some value of each property describes; missing ones count as zero. -/
def rectOf (l : Layer) (value : Property.Entry → UInt64) : Rect :=
  let coordinate (p : WellKnown) : Int :=
    signed32 (((l.properties.wellKnown? p).map value).getD 0)
  .ofSize (coordinate .crtcX) (coordinate .crtcY) (coordinate .crtcW) (coordinate .crtcH)

def screenRect (l : Layer) : Rect := l.rectOf Property.Entry.value

def cleanScreenRect (l : Layer) : Rect := l.rectOf Property.Entry.cleanValue

def intersects (l other : Layer) : Bool :=
  l.isVisible && other.isVisible && l.screenRect.overlaps other.screenRect

/-- Counts a framebuffer update, if there was one since the last clean mark, and at the end of a
period makes the count the priority. -/
def countUpdate (l : Layer) (periodElapsed : Bool) : Layer :=
  let updated := ((l.properties.wellKnown? .fbId).map Property.Entry.isDirty).getD false
  let pending := l.pendingPriority + if updated then 1 else 0
  if periodElapsed then { l with priority := pending, pendingPriority := 0 }
  else { l with pendingPriority := pending }

def markClean (l : Layer) : Layer :=
  { l with
    changed := false
    cleanFramebuffer := l.framebuffer
    properties := l.properties.markClean }

def addCandidatePlane (l : Layer) (plane : UInt32) : Layer :=
  if l.candidatePlanes.contains plane then l
  else { l with candidatePlanes := l.candidatePlanes ++ [plane] }

/-- Which of two layers is asked about makes no difference. -/
theorem intersects_comm (l other : Layer) : l.intersects other = other.intersects l := by
  rw [intersects, intersects, Rect.overlaps_comm, Bool.and_comm l.isVisible]

end Layer

end Scanout
