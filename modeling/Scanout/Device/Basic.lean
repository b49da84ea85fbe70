import Scanout.Arena
import Scanout.Config
import Scanout.Output
import Scanout.Plane.Basic
import Scanout.Session

/-!
# Devices

A device is the line to a driver together with the registered planes, the outputs and the layers.
An operation either returns, reports an error, or finds a fault of its caller; the device keeps
whatever was done up to then.

Which plane shows which layer is written on both sides. `setLink` is the only operation that writes
it, so the two sides always agree.
-/

namespace Scanout

structure Device (σ : Type) where
  session : Session σ
  config : Config := {}
  crtcs : List UInt32
  planes : List Plane := []
  outputs : Arena Output := {}
  layers : Arena Layer := {}
  applyCount : Nat := 0

abbrev DeviceM (σ : Type) := EStateM Failure (Device σ)

namespace Device

variable {σ : Type}

def fail {α : Type} (e : Error) : DeviceM σ α := throw (.error e)

def blame {α : Type} (f : Fault) : DeviceM σ α := throw (.fault f)

def onSession {α : Type} (x : SessionM σ α) : DeviceM σ α := fun d =>
  match x d.session with
  | .ok a session => .ok a { d with session }
  | .error e session => .error e { d with session }

def onKernel {α : Type} (x : EStateM Fault σ α) : DeviceM σ α := fun d =>
  match x d.session.kernel with
  | .ok a kernel => .ok a { d with session := { d.session with kernel } }
  | .error f kernel => .error (.fault f) { d with session := { d.session with kernel } }

def query {α : Type} (ask : σ → Except Errno α) : DeviceM σ α := do
  match ask (← get).session.kernel with
  | .ok a => pure a
  | .error e => fail (.kernel e)

def log (severity : Severity) (note : Note) : DeviceM σ Unit :=
  onSession (Session.log severity note)

def create [Kernel σ] (kernel : σ) : Except Error (Device σ) :=
  match Kernel.crtcs kernel with
  | .ok crtcs => .ok { session := { kernel }, crtcs }
  | .error e => .error (.kernel e)

def plane? (d : Device σ) (plane : UInt32) : Option Plane := d.planes.find? fun p => p.id = plane

def output? (d : Device σ) (id : OutputId) : Option Output := d.outputs.get? id.toHandle

def layer? (d : Device σ) (id : LayerId) : Option Layer := d.layers.get? id.toHandle

/-- The output a handle names; the handle must not be stale. -/
def output (id : OutputId) : DeviceM σ Output := do
  match (← get).output? id with
  | some o => pure o
  | none => blame (.staleOutput id)

/-- The layer a handle names; the handle must not be stale. -/
def layer (id : LayerId) : DeviceM σ Layer := do
  match (← get).layer? id with
  | some l => pure l
  | none => blame (.staleLayer id)

def withOutput (d : Device σ) (id : OutputId) (f : Output → Output) : Device σ :=
  { d with outputs := d.outputs.modify id.toHandle f }

def withLayer (d : Device σ) (id : LayerId) (f : Layer → Layer) : Device σ :=
  { d with layers := d.layers.modify id.toHandle f }

def withPlane (d : Device σ) (plane : UInt32) (f : Plane → Plane) : Device σ :=
  { d with planes := d.planes.map fun p => if p.id = plane then f p else p }

def unlink (d : Device σ) (plane : UInt32) : Device σ :=
  match (d.plane? plane).bind Plane.layer with
  | some old =>
    (d.withLayer old ({ · with plane := none })).withPlane plane ({ · with layer := none })
  | none => d

/-- Makes a plane show a layer. The plane's previous layer and the layer's previous plane are left
without each other. -/
def link (d : Device σ) (plane : UInt32) (id : LayerId) : Device σ :=
  let d := d.unlink plane
  -- The layer keeps no second plane that still points at it.
  let d := match (d.layer? id).bind Layer.plane with
    | some previous => d.withPlane previous ({ · with layer := none })
    | none => d
  (d.withLayer id ({ · with plane := some plane })).withPlane plane ({ · with layer := some id })

/-- Makes a plane show a layer or nothing; the layer's handle must not be stale. -/
def setLink (plane : UInt32) (layer : Option LayerId) : DeviceM σ Unit := do
  match layer with
  | none => modify (·.unlink plane)
  | some id =>
    if ((← get).layer? id).isSome then modify (·.link plane id)
    else do
      modify (·.unlink plane)
      blame (.staleLayer id)

def label (d : Device σ) : String :=
  "Device \x7b config: " ++ d.config.label ++ ", crtcs: [" ++
    ", ".intercalate (d.crtcs.map toString) ++ "], planes: " ++ toString d.planes.length ++
    ", test_commits: " ++ toString d.session.testCommits ++ ", .. \x7d"

end Device

end Scanout
