import Scanout.Plane.Basic
import Scanout.Request

/-!
# Staging layers onto planes

What is written to a request to show a layer on a plane, or nothing on it. Every value is checked
against the plane's descriptors first. A layer is staged completely or not at all; switching a plane
off keeps what was written before a missing property was noticed.
-/

namespace Scanout

inductive Incompatibility where
  | missingProperty
  | invalidValue
  | fbFormat
  | forcedComposition
  | kernel (errno : Errno)
  deriving DecidableEq, Repr

def Incompatibility.label : Incompatibility → String
  | missingProperty => "MissingProperty"
  | invalidValue => "InvalidValue"
  | fbFormat => "FbFormat"
  | forcedComposition => "ForcedComposition"
  | kernel errno => s!"Kernel({errno.label})"

/-- Writing to a request; what was written stays there also when the writing fails. -/
abbrev Staging (ε : Type) := EStateM ε Request

def Staging.allOrNothing {ε : Type} (x : Staging ε Unit) : Staging ε Unit := fun request =>
  match x request with
  | .ok _ after => .ok () after
  | .error e after => .error e (after.rollback request.cursor)

def isHarmlessWithout (name : String) (value : UInt64) : Bool :=
  match name with
  | "alpha" => value = 0xFFFF
  | "rotation" => value = 1
  | "SCALING_FILTER" => value = 0
  | "pixel blend mode" => value = 0
  | "FB_DAMAGE_CLIPS" => true
  | _ => false

namespace Plane

def write {ε : Type} (p : Plane) (d : Property.Descriptor) (value : UInt64) : Staging ε Unit :=
  modify fun request => request.add p.id d.id value

/-- Stages a zero for the given property, which the plane must have. -/
def stageZero (p : Plane) (property : WellKnown) : Staging Error Unit :=
  match p.descriptor? property.name with
  | some d => p.write d 0
  | none => throw (.missingPlaneProperty p.id property.name)

def stageDisabled (p : Plane) : Staging Error Unit := do
  p.stageZero .fbId
  p.stageZero .crtcId

/-- Stages one property of a layer. The stacking position is never written: it only guides the
allocation. -/
def stageEntry (p : Plane) (e : Property.Entry) : Staging Incompatibility Unit :=
  if e.name = WellKnown.zpos.name then pure ()
  else
    match p.descriptor? e.name with
    | some d => if d.accepts e.value then p.write d e.value else throw .invalidValue
    | none => if isHarmlessWithout e.name e.value then pure () else throw .missingProperty

def stageEntries (p : Plane) (entries : List Property.Entry) : Staging Incompatibility Unit :=
  entries.forM p.stageEntry

def stageLayer (p : Plane) (l : Layer) (crtc : UInt32) : Staging Incompatibility Unit :=
  Staging.allOrNothing do
    match p.descriptor? WellKnown.crtcId.name with
    | some d => p.write d crtc.toUInt64
    | none => throw .missingProperty
    p.stageEntries l.properties.entries

end Plane

end Scanout
