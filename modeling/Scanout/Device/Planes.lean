import Scanout.Device.Basic
import Scanout.Format.Blob

namespace Scanout

def PlaneInfo.value? (info : PlaneInfo) (name : String) : Option UInt64 :=
  (info.properties.reverse.find? fun p => p.1.name == name).map Prod.snd

def Plane.insertInto (p : Plane) : List Plane → List Plane
  | [] => [p]
  | q :: planes =>
    if p.isPrimary || (!q.isPrimary && p.zpos ≥ q.zpos) then p :: q :: planes
    else q :: p.insertInto planes

namespace Device

variable {σ : Type} [Kernel σ]

/-- The format table in a blob; a blob that cannot be decoded is logged and ignored. -/
def formatsOf (plane : UInt32) (blob : UInt64) : DeviceM σ (Option Format.Table) := do
  let table := Format.Table.decode? (← query fun s => Kernel.blob s blob)
  if table.isNone then log .error (.malformedFormats plane blob)
  pure table

def registerPlane (id : UInt32) : DeviceM σ Unit := do
  if ((← get).plane? id).isSome then
    log .error (.planeRegisteredTwice id)
    fail (.duplicatePlane id)
  let info ← query fun s => Kernel.plane s id
  let some type := info.value? "type"
    | do
      log .error (.planeWithoutType id)
      fail (.missingPlaneType id)
  let kind := PlaneKind.ofValue type
  let formats ← match info.value? "IN_FORMATS" with
    | some blob => formatsOf id blob
    | none => pure none
  let planes := (← get).planes
  let zpos := match info.value? WellKnown.zpos.name with
    | some value => signed64 value
    | none => kind.guessedZpos id (planes.head?.map Plane.id)
  let plane : Plane :=
    { id, kind, zpos, possibleCrtcs := info.possibleCrtcs,
      descriptors := info.properties.map Prod.fst, formats }
  let planes := plane.insertInto planes
  log .debug (.planeRegistered id kind zpos (planes.findIdx fun p => p.id = id))
  modify ({ · with planes })

/-- Makes every plane of the driver available; stops at the first that fails. -/
def registerAllPlanes : DeviceM σ Unit := do
  (← query Kernel.planeIds).forM registerPlane

omit [Kernel σ] in
def unregisterPlane (id : UInt32) : DeviceM σ Bool := do
  if ((← get).plane? id).isSome then
    setLink id none
    modify fun d => { d with planes := d.planes.filter fun p => p.id ≠ id }
    pure true
  else pure false

end Device

end Scanout
