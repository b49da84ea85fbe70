import Scanout.Format.Table
import Scanout.Kernel.Basic
import Scanout.Kernel.IoError

namespace Scanout

namespace Node

inductive Capability where
  | universalPlanes
  | atomic
  deriving DecidableEq, Repr

namespace Capability

def all : List Capability := [universalPlanes, atomic]

def name : Capability → String
  | universalPlanes => "UNIVERSAL_PLANES"
  | atomic => "ATOMIC"

end Capability

inductive SetupError where
  | notOpened (path : String) (why : IoError)
  | capability (capability : Capability) (why : IoError)
  deriving DecidableEq, Repr

def SetupError.name : SetupError → String
  | .notOpened .. => "Open"
  | .capability .. => "Capability"

def SetupError.message : SetupError → String
  | .notOpened path why => s!"failed to open DRM node {path}: {why.message}"
  | .capability c why => s!"DRM client capability {c.name} not supported: {why.message}"

/-- Asks for the capabilities one after the other, up to the first refusal. The first part of the
answer holds those that were asked for. -/
def negotiate (refusal? : Capability → Option IoError) :
    List Capability → List Capability × Except SetupError Unit
  | [] => ([], .ok ())
  | c :: rest =>
    match refusal? c with
    | some why => ([c], .error (.capability c why))
    | none =>
      let (asked, outcome) := negotiate refusal? rest
      (c :: asked, outcome)

/-- Prepares the device at a path, where opening it ends in an error or gives a device that may refuse
capabilities. -/
def openAt (path : String) :
    Except IoError (Capability → Option IoError) → List Capability × Except SetupError Unit
  | .error why => ([], .error (.notOpened path why))
  | .ok refusal? => negotiate refusal? Capability.all

/-- How atomic requests of type `ρ` are put together: from nothing, write by write. Flags without a meaning
are dropped. -/
structure AtomicApi (ρ : Type) where
  empty : ρ
  add : ρ → Write → ρ
  knownFlags : UInt32 → UInt32

inductive Call (ρ : Type) where
  | resources
  | planes
  | plane (id : UInt32)
  | blob (id : UInt64)
  | framebuffer (id : UInt32)
  | commit (flags : UInt32) (request : ρ)
  deriving DecidableEq, Repr

abbrev Plan (ρ : Type) := Except Errno (Call ρ)

section Plans

variable {ρ : Type}

def crtcs : Plan ρ := .ok .resources

def planeIds : Plan ρ := .ok .planes

/-- No plane has the id zero. -/
def plane (id : UInt32) : Plan ρ := if id = 0 then .error .enoent else .ok (.plane id)

def blob (id : UInt64) : Plan ρ := .ok (.blob id)

/-- No framebuffer has the id zero. -/
def framebuffer (id : UInt32) : Plan ρ := if id = 0 then .error .enoent else .ok (.framebuffer id)

variable (api : AtomicApi ρ)

/-- No object and no property has the id zero. -/
def addWrite (request : ρ) (w : Write) : Except Errno ρ :=
  if w.object = 0 || w.property = 0 then .error .einval else .ok (api.add request w)

def commit (request : Request) (flags : CommitFlags) : Plan ρ :=
  (request.writes.foldlM (addWrite api) api.empty).map (.commit (api.knownFlags flags.bits))

end Plans

def failed (e : IoError) : Errno := e.errno

inductive FbError where
  | failed (why : IoError)
  | unknownFormat (code : UInt32)
  deriving DecidableEq, Repr

/-- The answer for a framebuffer without description. Old drivers call the question invalid, and a
format without a name can still be shown: in both cases nothing is known of the framebuffer. -/
def framebufferAnswer : FbError → Except Errno (Option Framebuffer)
  | .failed why => if why.errno = .einval then .ok none else .error why.errno
  | .unknownFormat _ => .ok none

inductive ValueType where
  | unknown
  | boolean
  | unsignedRange (min max : UInt64)
  | signedRange (min max : Int)
  | enumeration (values : List UInt64)
  | bitmask
  | blob
  | object
  | crtc
  | connector
  | encoder
  | framebuffer
  | plane
  | property
  deriving DecidableEq, Repr

/-- What the allocator checks of a declaration. The bits of a bitmask are not told, so only the
device can judge them. -/
def ValueType.kind : ValueType → Property.Kind
  | boolean => .range 0 1
  | unsignedRange min max => .range min max
  | signedRange min max => .signedRange min max
  | enumeration values => .enumeration values
  | blob => .blob
  | object | crtc | connector | encoder | framebuffer | plane | property => .object
  | bitmask | unknown => .other

structure Declaration where
  id : UInt32
  name : String
  valueType : ValueType
  isMutable : Bool

def Declaration.descriptor (d : Declaration) : Property.Descriptor where
  id := d.id
  name := d.name
  kind := d.valueType.kind
  immutable := !d.isMutable

/-- The bit that stands for the pipe at a position, if there is one. -/
def crtcBit? (position : Nat) : Option UInt32 :=
  if position < 32 then some (1 <<< UInt32.ofNat position) else none

/-- The pipes that can be used, as bits by their positions. -/
def crtcMask (crtcs usable : List UInt32) : UInt32 :=
  ((crtcs.zipIdx.filter fun c => usable.contains c.1).filterMap fun c => crtcBit? c.2).foldl (· ||| ·) 0

def planeAnswer (crtcs usable : List UInt32) (properties : List (Declaration × UInt64)) : PlaneInfo where
  possibleCrtcs := crtcMask crtcs usable
  properties := properties.map fun p => (p.1.descriptor, p.2)

def framebufferOf (id width height format : UInt32) (modifier? : Option UInt64) : Framebuffer where
  id := id
  width := width
  height := height
  format := format
  modifier := modifier?.getD Format.invalidModifier
  hasModifier := modifier?.isSome

/-- A reading of the system's clock as ticks. Negative parts count as zero, a part of a second is
less than a whole one, and the clock stops at its greatest reading. -/
def timeOf (seconds nanos : Int) : HostTime :=
  ⟨UInt64.ofNat (min (seconds.toNat * 1000000000 + min nanos.toNat 999999999) (UInt64.size - 1))⟩

end Node

end Scanout
