import Scanout.Format.Table
import Scanout.Layer
import Scanout.Plane.Kind

namespace Scanout

structure Plane where
  id : UInt32
  kind : PlaneKind
  zpos : Int
  /-- Bit `i` stands for the `i`-th pipe of the driver's list. -/
  possibleCrtcs : UInt32
  descriptors : List Property.Descriptor
  formats : Option Format.Table
  layer : Option LayerId := none
  deriving DecidableEq, Repr

namespace Plane

def isPrimary (p : Plane) : Bool := p.kind = .primary

/-- The descriptor of a property: of several with one well-known name the last counts, of others
the first. -/
def descriptor? (p : Plane) (name : String) : Option Property.Descriptor :=
  match WellKnown.ofName? name with
  | some _ => p.descriptors.reverse.find? fun d => d.name == name
  | none => p.descriptors.find? fun d => d.name == name

def canServe (p : Plane) (crtcIndex : Nat) : Bool := p.possibleCrtcs.toNat.testBit crtcIndex

def isFreeFor (p : Plane) (crtcIndex : Nat) : Bool := p.layer.isNone && p.canServe crtcIndex

theorem isFreeFor_eq_true_iff {p : Plane} {crtcIndex : Nat} :
    p.isFreeFor crtcIndex = true ↔ p.layer = none ∧ p.canServe crtcIndex = true := by
  simp [isFreeFor]

def allowsFramebuffer (p : Plane) (l : Layer) : Bool :=
  match l.framebuffer, p.formats with
  | some fb, some table =>
    fb.id = 0 || !fb.hasModifier || table.supports fb.format fb.modifier
  | _, _ => true

end Plane

end Scanout
