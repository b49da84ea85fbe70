import Scanout.Device.Basic

namespace Scanout
namespace Device

variable {σ : Type}

def createOutput (crtc : UInt32) : DeviceM σ OutputId := do
  let d ← get
  match d.crtcs.findIdx? (· == crtc) with
  | none => fail (.unknownCrtc crtc)
  | some crtcIndex =>
    let (handle, outputs) := d.outputs.insert { crtc, crtcIndex }
    set { d with outputs }
    pure ⟨handle⟩

def createLayer (output : OutputId) : DeviceM σ LayerId := do
  let _ ← Device.output output
  let d ← get
  let (handle, layers) := d.layers.insert { output }
  let id : LayerId := ⟨handle⟩
  set ({ d with layers }.withOutput output fun o =>
    { o with layers := o.layers ++ [id], layersChanged := true })
  pure id

def destroyLayer (id : LayerId) : DeviceM σ Unit := do
  let l ← layer id
  if let some plane := l.plane then setLink plane none
  modify fun d => { d with layers := d.layers.remove id.toHandle }
  let _ ← output l.output
  modify (·.withOutput l.output fun o =>
    { o with
      compositionLayer := if o.compositionLayer = some id then none else o.compositionLayer
      layers := o.layers.filter (· ≠ id)
      layersChanged := true })

def destroyOutput (id : OutputId) : DeviceM σ Unit := do
  (← output id).layers.forM destroyLayer
  modify fun d => { d with outputs := d.outputs.remove id.toHandle }

def setCompositionLayer (output : OutputId) (id : LayerId) : DeviceM σ Unit := do
  if (← layer id).output ≠ output then fail .foreignLayer
  let _ ← Device.output output
  modify (·.withOutput output fun o =>
    { o with
      layersChanged := o.layersChanged || o.compositionLayer != some id
      compositionLayer := some id })

def outputNeedsComposition (id : OutputId) : DeviceM σ Bool := do
  (← output id).layers.anyM fun l => Layer.needsComposition <$> layer l

/-- Edits a layer; the edit may be refused. -/
def editLayer (id : LayerId) (edit : Layer → Except Error Layer) : DeviceM σ Unit := do
  match edit (← layer id) with
  | .ok l => modify (·.withLayer id fun _ => l)
  | .error e => fail e

def setProperty (id : LayerId) (name : String) (value : UInt64) : DeviceM σ Unit :=
  editLayer id fun l => l.setProperty name value

def unsetProperty (id : LayerId) (name : String) : DeviceM σ Unit :=
  editLayer id fun l => .ok (l.unsetProperty name)

def forceComposition (id : LayerId) : DeviceM σ Unit :=
  editLayer id fun l => .ok l.forceComposition

def commit [Kernel σ] (request : Request) (flags : CommitFlags) : DeviceM σ Unit := do
  let reply ← modifyGet fun d =>
    let (reply, kernel) := Kernel.commit d.session.kernel request flags
    (reply, { d with session := { d.session with kernel } })
  match reply with
  | .ok () => pure ()
  | .error e =>
    log .error (.commitFailed e)
    fail (.kernel e)

end Device
end Scanout
