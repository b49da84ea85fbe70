import Scanout.Device.Basic

namespace Scanout

structure Frame (σ : Type) where
  device : Device σ
  request : Request := {}

abbrev FrameM (σ : Type) := EStateM Failure (Frame σ)

namespace Frame

variable {σ α : Type}

def onDevice (x : DeviceM σ α) : FrameM σ α := fun f =>
  match x f.device with
  | .ok a device => .ok a { f with device }
  | .error e device => .error e { f with device }

def onRequest (x : Staging Failure α) : FrameM σ α := fun f =>
  match x f.request with
  | .ok a request => .ok a { f with request }
  | .error e request => .error e { f with request }

def attempt (x : FrameM σ α) : FrameM σ (Except Failure α) := fun f =>
  match x f with
  | .ok a f => .ok (.ok a) f
  | .error e f => .ok (.error e) f

def rollback (cursor : Nat) : FrameM σ Unit :=
  modify fun f => { f with request := f.request.rollback cursor }

def emit (e : Event) : FrameM σ Unit := onDevice (Device.onSession (Session.emit e))

def log (severity : Severity) (note : Note) : FrameM σ Unit := onDevice (Device.log severity note)

variable [Kernel σ]

def now : FrameM σ HostTime := onDevice (Device.onSession Session.now)

def testCommit (flags : CommitFlags) : FrameM σ (Option Errno) := do
  let request := (← get).request
  onDevice (Device.onSession (Session.testCommit request flags))

end Frame

namespace Device

variable {σ : Type}

/-- Stages the plane as the links say: its layer, or nothing. A layer that does not fit its plane is
reported as an invalid configuration. -/
def stagePlane (d : Device σ) (p : Plane) : Staging Failure Unit :=
  match p.layer with
  | none => p.stageDisabled.adaptExcept .error
  | some id =>
    match d.layer? id with
    | none => throw (.fault (.staleLayer id))
    | some l =>
      match d.output? l.output with
      | none => throw (.fault (.staleOutput l.output))
      | some o => (p.stageLayer l o.crtc).adaptExcept fun _ => .error (.kernel .einval)

def stageCurrent (d : Device σ) : Staging Failure Unit :=
  Staging.allOrNothing (d.planes.forM d.stagePlane)

end Device

end Scanout
