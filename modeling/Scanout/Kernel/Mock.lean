import Scanout.Format.Blob
import Scanout.Handle
import Scanout.Kernel.Basic
import Scanout.Plane.Kind

/-!
# A mock driver

A driver in memory, with planes that all have the basic properties. A framebuffer is made for a
layer, and a plane takes a framebuffer only if its layer was declared compatible. A commit is judged
by the state it would lead to: on every plane framebuffer and pipe are both set or both zero, the
pipe is one the plane can serve, the framebuffer is one it takes, and, if so required, nothing is
lit without a primary plane. Only commits that are not tests change that state.
-/

namespace Scanout
namespace Mock

def indexMask : UInt32 := 0x00FFFFFF

def crtcTag : UInt32 := 0xCC000000

def planeTag : UInt32 := 0xEE000000

def propertyTag : UInt32 := 0xB0000000

def fbTag : UInt32 := 0xFB000000

def blobTag : UInt32 := 0xBB000000

def objectId (index : Nat) (tag : UInt32) : UInt32 :=
  (if index < UInt32.size then UInt32.ofNat index &&& indexMask else indexMask) ||| tag

def objectIndex? (id : UInt64) (tag : UInt32) : Option Nat :=
  if id.toNat < UInt32.size && id.toUInt32 &&& ~~~indexMask = tag then
    some (id.toUInt32 &&& indexMask).toNat
  else none

def basicProperties : List String :=
  ["type", "FB_ID", "CRTC_ID", "CRTC_X", "CRTC_Y", "CRTC_W", "CRTC_H", "SRC_X", "SRC_Y", "SRC_W",
    "SRC_H"]

def typeIndex : Nat := 0

def fbIndex : Nat := 1

def crtcIndex : Nat := 2

structure Plane where
  id : UInt32
  values : List (Nat × UInt64)
  compatible : List LayerId := []
  possibleCrtcs : UInt32 := 0xFFFFFFFF
  deriving DecidableEq, Repr

namespace Plane

def value? (p : Plane) (property : Nat) : Option UInt64 :=
  (p.values.find? fun v => v.1 = property).map Prod.snd

def setValue (p : Plane) (property : Nat) (value : UInt64) : Plane :=
  match p.values.findIdx? fun v => v.1 = property with
  | some i => { p with values := p.values.modify i fun v => (v.1, value) }
  | none => p

end Plane

structure Fb where
  layer : LayerId
  info : Option Framebuffer := none
  deriving DecidableEq, Repr

end Mock

def Mock.basicDescriptors : List Property.Descriptor :=
  basicProperties.mapIdx fun i name => { id := objectId i propertyTag, name, kind := .other }

structure Mock where
  crtcCount : Nat := 1
  properties : List Property.Descriptor := Mock.basicDescriptors
  planes : List Mock.Plane := []
  fbs : List Mock.Fb := []
  blobs : List (List UInt8) := []
  requiresPrimary : Bool := false
  /-- The flags of all commits so far, the latest in front. -/
  commitFlags : List CommitFlags := []
  commitCost : UInt64 := 0
  clock : HostTime := ⟨0⟩
  injected : List Errno := []
  deriving DecidableEq, Repr

abbrev MockM := EStateM Fault Mock

namespace Mock

def empty : Mock := {}

def plane? (m : Mock) (id : UInt32) : Option Plane := m.planes.find? fun p => p.id = id

def crtcIndex? (m : Mock) (crtc : UInt64) : Option Nat :=
  (objectIndex? crtc crtcTag).filter (· < m.crtcCount)

def propertyIndex? (m : Mock) (property : UInt32) : Option Nat :=
  (objectIndex? property.toUInt64 propertyTag).filter (· < m.properties.length)

def fbLayer? (m : Mock) (fb : UInt64) : Option LayerId :=
  if fb = 0 then none
  else ((objectIndex? fb fbTag).bind fun i => m.fbs[i]?).map Fb.layer

def createCrtc : MockM UInt32 :=
  modifyGet fun m => (objectId m.crtcCount crtcTag, { m with crtcCount := m.crtcCount + 1 })

def createPlane (kind : PlaneKind) : MockM UInt32 :=
  modifyGet fun m =>
    let id := objectId m.planes.length planeTag
    let values := (List.range basicProperties.length).map fun i =>
      (i, if i = typeIndex then kind.value else 0)
    (id, { m with planes := m.planes ++ [{ id, values }] })

def modifyPlane (id : UInt32) (f : Plane → Plane) : MockM Unit := do
  match (← get).planes.findIdx? fun p => p.id = id with
  | some i => modify fun m => { m with planes := m.planes.modify i f }
  | none => throw (.unknownMockPlane id)

/-- Says which pipes a plane can serve, one bit for each. -/
def setPossibleCrtcs (plane mask : UInt32) : MockM Unit :=
  modifyPlane plane ({ · with possibleCrtcs := mask })

/-- Declares a property and gives it to a plane; answers the property's id. The declaration stays
even if the plane does not exist. -/
def declareProperty (plane : UInt32) (name : String) (kind : Property.Kind) (immutable : Bool)
    (value : UInt64) : MockM UInt32 := do
  let index := (← get).properties.length
  let id := objectId index propertyTag
  modify fun m => { m with properties := m.properties ++ [{ id, name, kind, immutable }] }
  modifyPlane plane fun p => { p with values := p.values ++ [(index, value)] }
  pure id

def addProperty (plane : UInt32) (name : String) (kind : Property.Kind) (value : UInt64) :
    MockM UInt32 :=
  declareProperty plane name kind false value

def addImmutableProperty (plane : UInt32) (name : String) (value : UInt64) : MockM UInt32 :=
  declareProperty plane name .other true value

def createBlob (bytes : List UInt8) : MockM UInt64 :=
  modifyGet fun m =>
    ((objectId m.blobs.length blobTag).toUInt64, { m with blobs := m.blobs ++ [bytes] })

def addFormats (plane : UInt32) (pairs : List (UInt32 × UInt64)) : MockM Unit := do
  let blob ← createBlob (Format.Table.ofPairs pairs).encode
  let _ ← addProperty plane "IN_FORMATS" .blob blob

/-- Makes a framebuffer for a layer and answers its id; nothing is known of it at first. -/
def createFb (layer : LayerId) : MockM UInt32 :=
  modifyGet fun m => (objectId m.fbs.length fbTag, { m with fbs := m.fbs ++ [{ layer }] })

def setFbInfo (info : Framebuffer) : MockM Unit := do
  match (objectIndex? info.id.toUInt64 fbTag).filter (· < (← get).fbs.length) with
  | some i => modify fun m => { m with fbs := m.fbs.modify i ({ · with info := some info }) }
  | none => throw (.unknownMockFramebuffer info.id)

def addCompatibleLayer (plane : UInt32) (layer : LayerId) : MockM Unit :=
  modifyPlane plane fun p =>
    if p.compatible.contains layer then p else { p with compatible := p.compatible ++ [layer] }

def requirePrimary (require : Bool) : MockM Unit := modify ({ · with requiresPrimary := require })

def setCommitCost (ticks : UInt64) : MockM Unit := modify ({ · with commitCost := ticks })

def advance (ticks : UInt64) : MockM Unit :=
  modify fun m => { m with clock := m.clock.advance ticks }

def failNextCommit (errno : Errno) : MockM Unit :=
  modify fun m => { m with injected := m.injected ++ [errno] }

def planeLayer? (m : Mock) (plane : UInt32) : Option LayerId :=
  ((m.plane? plane).bind fun p => p.value? fbIndex).bind m.fbLayer?

def planeProperty? (m : Mock) (plane : UInt32) (name : String) : Option UInt64 := do
  let p ← m.plane? plane
  let value ← p.values.find? fun v => (m.properties[v.1]?).any fun d => d.name == name
  pure value.2

/-- A write is one the driver can carry out: the plane exists and has the property, and the property
may be written. -/
def checkWrite (m : Mock) (w : Write) : Except Errno Unit :=
  match m.plane? w.object, m.propertyIndex? w.property with
  | some p, some i =>
    if (p.value? i).isNone || (m.properties[i]?).any Property.Descriptor.immutable then
      .error .einval
    else .ok ()
  | _, _ => .error .enoent

def valueAfter (request : Request) (p : Plane) (property : Nat) : UInt64 :=
  ((request.value? p.id (objectId property propertyTag)).or (p.value? property)).getD 0

/-- The plane is lit after a request; refused if what would light it does not fit. -/
def checkPlane (m : Mock) (request : Request) (p : Plane) : Except Errno Bool :=
  let fb := valueAfter request p fbIndex
  let crtc := valueAfter request p crtcIndex
  if (fb == 0) != (crtc == 0) then .error .einval
  else if fb = 0 then .ok false
  else
    match m.crtcIndex? crtc, m.fbLayer? fb with
    | some i, some layer =>
      if p.possibleCrtcs.toNat.testBit i && p.compatible.contains layer then .ok true
      else .error .einval
    | _, _ => .error .einval

/-- The planes that are lit after a request; refused if one of them does not fit. -/
def litPlanes (m : Mock) (request : Request) : List Plane → Except Errno (List Plane)
  | [] => .ok []
  | p :: planes => do
    let lit ← m.checkPlane request p
    let rest ← m.litPlanes request planes
    pure (if lit then p :: rest else rest)

def Plane.isPrimary (p : Plane) : Bool := p.value? typeIndex = some PlaneKind.primary.value

def validate (m : Mock) (request : Request) : Except Errno Unit := do
  request.writes.forM m.checkWrite
  let lit ← m.litPlanes request m.planes
  if m.requiresPrimary && !lit.isEmpty && !lit.any Plane.isPrimary then .error .einval else .ok ()

/-- The state after one write; writes to unknown objects change nothing. -/
def applyWrite (m : Mock) (w : Write) : Mock :=
  match m.propertyIndex? w.property, m.planes.findIdx? fun p => p.id = w.object with
  | some i, some j => { m with planes := m.planes.modify j fun p => p.setValue i w.value }
  | _, _ => m

def countCommit (m : Mock) (flags : CommitFlags) : Mock :=
  { m with
    commitFlags := flags :: m.commitFlags
    clock := m.clock.advance m.commitCost }

def commit (m : Mock) (request : Request) (flags : CommitFlags) : Except Errno Unit × Mock :=
  let m := m.countCommit flags
  match m.injected with
  | e :: injected => (.error e, { m with injected })
  | [] =>
    match m.validate request with
    | .error e => (.error e, m)
    -- A test is judged like any other commit but changes no property.
    | .ok () => (.ok (), if flags.isTest then m else request.writes.foldl applyWrite m)

/-- Of two steps in a row that failed, the first failed or else the second did. -/
theorem failed_step {α β : Type} {x : Except Errno α} {f : α → Except Errno β} {e : Errno}
    (h : x >>= f = .error e) : x = .error e ∨ ∃ a, x = .ok a ∧ f a = .error e := by
  cases x with
  | error e' => exact .inl (by simpa [bind, Except.bind] using h)
  | ok a => exact .inr ⟨a, rfl, h⟩

/-- A write is refused for good. -/
theorem checkWrite_not_transient {m : Mock} {w : Write} {e : Errno}
    (h : m.checkWrite w = .error e) : e.isTransient = false := by
  have cause : e = .einval ∨ e = .enoent := by grind [checkWrite]
  rcases cause with rfl | rfl <;> rfl

/-- A plane's next state is refused for good. -/
theorem checkPlane_not_transient {m : Mock} {request : Request} {p : Plane} {e : Errno}
    (h : m.checkPlane request p = .error e) : e.isTransient = false := by
  have cause : e = .einval := by grind [checkPlane]
  rw [cause]
  rfl

/-- The planes' next states are refused for good. -/
theorem litPlanes_not_transient {m : Mock} {request : Request} {planes : List Plane} {e : Errno}
    (h : m.litPlanes request planes = .error e) : e.isTransient = false := by
  induction planes with
  | nil => cases h
  | cons p planes ih =>
    rcases failed_step h with plane | ⟨lit, -, later⟩
    · exact checkPlane_not_transient plane
    · rcases failed_step later with rest | ⟨_, -, done⟩
      · exact ih rest
      · cases done

/-- The mock never finds a request interrupted: only injected errors interrupt. -/
theorem validate_not_transient {m : Mock} {request : Request} {e : Errno}
    (h : m.validate request = .error e) : e.isTransient = false := by
  have writes (ws : List Write) (h : ws.forM m.checkWrite = .error e) : e.isTransient = false := by
    induction ws with
    | nil => cases h
    | cons w ws ih =>
      rcases failed_step h with write | ⟨_, -, rest⟩
      · exact checkWrite_not_transient write
      · exact ih rest
  rcases failed_step h with bad | ⟨_, -, later⟩
  · exact writes _ bad
  · rcases failed_step later with planes | ⟨lit, -, unlit⟩
    · exact litPlanes_not_transient planes
    · split at unlit <;> cases unlit
      rfl

/-- Every interrupted commit uses up one of the injected errors. -/
theorem injected_length_lt {m m' : Mock} {request : Request} {flags : CommitFlags} {e : Errno}
    (h : m.commit request flags = (.error e, m')) (transient : e.isTransient = true) :
    m'.injected.length < m.injected.length := by
  simp only [commit] at h
  split at h
  · rename_i injected
    cases h
    simp only [countCommit] at injected
    simp [injected]
  · split at h
    · rename_i verdict
      cases h
      simp [validate_not_transient verdict] at transient
    · cases h

instance : Kernel Mock where
  crtcs m := .ok ((List.range m.crtcCount).map fun i => objectId i crtcTag)
  planeIds m := .ok (m.planes.map Plane.id)
  plane m id :=
    match m.plane? id with
    | some p => .ok
        { possibleCrtcs := p.possibleCrtcs
          properties := p.values.filterMap fun v => (m.properties[v.1]?).map fun d => (d, v.2) }
    | none => .error .enoent
  blob m id :=
    match (objectIndex? id blobTag).bind fun i => m.blobs[i]? with
    | some bytes => .ok bytes
    | none => .error .einval
  framebuffer m id :=
    match (objectIndex? id.toUInt64 fbTag).bind fun i => m.fbs[i]? with
    | some fb => .ok fb.info
    | none => .error .enoent
  commit := commit
  now m := (m.clock, m)
  timebase _ := .nanos
  interruptions m _ _ := some m.injected.length
  interruptions_lt _ _ _ _ _ _ bound outcome transient :=
    ⟨_, Option.some.inj bound ▸ injected_length_lt outcome transient, rfl⟩

end Mock

end Scanout
