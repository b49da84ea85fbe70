import Scanout.Allocation.Order
import Scanout.Allocation.Reuse
import Scanout.Allocation.Search
import Scanout.Device.Layers

/-!
# Applying an output

An apply decides which planes show the layers of one output and writes the outcome to the caller's
request. It counts framebuffer updates, looks up the framebuffers, puts the layers in order, and
then keeps the previous allocation if that is possible, or else searches for the best one.
-/

namespace Scanout
namespace Allocation

variable {σ : Type}

def priorityChanges (layers : Arena Layer) (periodElapsed : Bool) : List Event :=
  layers.toList.filterMap fun (handle, l) =>
    let priority := (l.countUpdate periodElapsed).priority
    if l.priority = priority then none
    else some (.priorityChange ⟨handle⟩ l.priority priority)

/-- Counts framebuffer updates on all layers of the device and, at the end of a period, promotes the
counts. -/
def updatePriorities : DeviceM σ Unit := do
  let d ← get
  let applyCount := d.applyCount + 1
  let periodElapsed : Bool := d.config.priorityPeriod.toNat ≤ applyCount
  set { d with
    applyCount := if periodElapsed then 0 else applyCount
    layers := d.layers.map fun l => l.countUpdate periodElapsed }
  (priorityChanges d.layers periodElapsed).forM fun e => Device.onSession (Session.emit e)

def framebufferId? (l : Layer) : Option UInt32 :=
  match l.property? WellKnown.fbId.name with
  | some value => if value = 0 || value.toNat ≥ UInt32.size then none else some value.toUInt32
  | none => none

def refreshFramebuffer [Kernel σ] (id : LayerId) : DeviceM σ Unit := do
  if let some l := (← get).layer? id then
    let framebuffer ← match framebufferId? l with
      | none => pure none
      | some fb =>
        match Kernel.framebuffer (← get).session.kernel fb with
        | .ok framebuffer => pure framebuffer
        | .error e =>
          Device.log .error (.framebufferQueryFailed fb e)
          pure none
    modify (·.withLayer id ({ · with framebuffer }))

def refreshFramebuffers [Kernel σ] (output : OutputId) : DeviceM σ Unit := do
  (← Device.output output).layers.forM refreshFramebuffer

def logLayers (output : OutputId) : DeviceM σ Unit := do
  let o ← Device.output output
  Device.log .debug (.layersOn o.crtc o.layers.length)
  o.layers.forM fun id => do
    if let some l := (← get).layer? id then
      if l.forcedComposition || l.hasFramebuffer then
        let role :=
          if l.forcedComposition then LayerRole.forcedComposition
          else if o.compositionLayer = some id then .composition
          else .plain
        Device.log .debug (.layer id role l.priority)
        l.properties.entries.forM fun e => Device.log .debug (.layerProperty e.name e.value)

def isHeldBy (d : Device σ) (output : OutputId) (p : Plane) : Bool :=
  (p.layer.bind d.layer?).any fun l => l.output = output

def unlinkAll (output : OutputId) : DeviceM σ Unit := do
  let d ← get
  (d.planes.filter (isHeldBy d output)).forM fun p => Device.setLink p.id none

def resetSearch (output : OutputId) : DeviceM σ Unit := do
  (← Device.output output).layers.forM fun id =>
    Device.editLayer id fun l => .ok { l with candidatePlanes := [] }
  modify fun d => { d with session := { d.session with testCommits := 0 } }

/-- Searches for the best allocation and answers it with the planes' candidates, in the order of
discovery. The request serves the search for its tests. -/
def search [Kernel σ] (output : OutputId) (flags : CommitFlags) (options : ApplyOptions)
    (started : HostTime) : FrameM σ (Option Search.Best × List (LayerId × UInt32)) := fun f =>
  match f.device.output? output with
  | none => .error (.fault (.staleOutput output)) f
  | some o =>
    let timebase := Kernel.timebase f.device.session.kernel
    let scene : Search.Scene :=
      { layers := f.device.layers, output := o, flags, started
        timeout := timebase.duration (options.searchTime f.device.config) }
    match Search.choose scene f.device.planes [] ⟨f.device.session, f.request, none, []⟩ with
    | .ok _ s => .ok (s.best, s.hints.reverse) ⟨{ f.device with session := s.session }, s.request⟩
    | .error e s => .error e ⟨{ f.device with session := s.session }, s.request⟩

def assignments (path : Search.Path) : List (UInt32 × LayerId) :=
  path.reverse.filterMap fun c => c.layer.map fun id => (c.plane.id, id)

def assign (output : OutputId) (plane : UInt32) (id : LayerId) : DeviceM σ Unit := do
  Device.setLink plane (some id)
  Device.onSession (Session.emit (.assignment output plane id))

/-- Runs a full search, links what it found and stages it. Answers the score, if any allocation is
possible. All planes that may be used are switched off beforehand, so that no plane is refused
because of what another one still holds. -/
def allocate [Kernel σ] (output : OutputId) (flags : CommitFlags) (options : ApplyOptions)
    (started : HostTime) : FrameM σ (Option Nat) := do
  Frame.onDevice do
    resetSearch output
    logLayers output
    unlinkAll output
  let freePlanes := (← get).device.planes.filter fun p => p.layer.isNone
  Frame.onRequest ((freePlanes.forM Plane.stageDisabled).adaptExcept .error)
  let (best, hints) ← search output flags options started
  let score := best.map Search.Best.score
  Frame.onDevice do
    hints.forM fun (id, plane) => Device.editLayer id fun l => .ok (l.addCandidatePlane plane)
    let tests := (← get).session.testCommits
    Device.log .debug (.allocationFound output score freePlanes.length tests)
    let links := (best.map fun b => assignments b.path).getD []
    links.forM fun (plane, id) => assign output plane id
    if links.isEmpty then Device.log .debug .noLayerPlaced
  Frame.onRequest (← get).device.stageCurrent
  pure score

/-- Tries to keep the previous allocation, unless something stands in the way. -/
def decideReuse [Kernel σ] (output : OutputId) (flags : CommitFlags) (orderChanged : Bool) :
    FrameM σ ReuseOutcome := do
  let o ← Frame.onDevice (Device.output output)
  match reuseBlocker (← get).device.layers o orderChanged with
  | some blocker => pure (.skipped blocker)
  | none =>
    match ← tryReuse flags with
    | none => pure .accepted
    | some e => pure (.rejected e)

def countReuse (output : OutputId) : DeviceM σ Unit := do
  let o ← Device.output output
  let reusedCount := addUpTo32 o.reusedCount 1
  modify (·.withOutput output ({ · with reusedCount }))
  if reusedCount = 1 then Device.log .debug (.reusing o.crtc)

def resetReuse (output : OutputId) : DeviceM σ Unit := do
  let o ← Device.output output
  modify (·.withOutput output ({ · with reusedCount := 0 }))
  if o.reusedCount ≠ 0 then Device.log .debug (.stoppedReusing o.crtc o.reusedCount)

def markClean (output : OutputId) : DeviceM σ Unit := do
  (← Device.output output).layers.forM fun id => modify (·.withLayer id Layer.markClean)
  modify (·.withOutput output ({ · with layersChanged := false }))

/-- The test commits of an apply. The search counts its own from zero. -/
def testsOf (outcome : ReuseOutcome) (searchTests : Nat) : Nat :=
  match outcome with
  | .accepted => 1
  | .rejected _ => addUpTo32 1 searchTests
  | .skipped _ => searchTests

end Allocation

open Allocation in
/-- Decides which planes show the layers of an output, and stages the outcome. The flags are those
of the commit the caller is going to make. -/
def Frame.apply {σ : Type} [Kernel σ] (output : OutputId) (flags : CommitFlags)
    (options : ApplyOptions) : FrameM σ Unit := do
  let started ← now
  let o ← onDevice (Device.output output)
  emit (.applyBegin output o.crtc o.layers.length started)
  let orderChanged ← onDevice do
    updatePriorities
    refreshFramebuffers output
    updateOrder output
  let outcome ← decideReuse output flags orderChanged
  emit (.reuse output outcome)
  let score ←
    if outcome = .accepted then do
      onDevice (countReuse output)
      pure none
    else do
      onDevice (resetReuse output)
      allocate output flags options started
  onDevice (markClean output)
  let ended ← now
  let tests := testsOf outcome (← get).device.session.testCommits
  emit (.applyEnd output (outcome = .accepted) score tests (ended.since started) ended)

def Device.prepare {σ : Type} [Kernel σ] (output : OutputId) (flags : CommitFlags)
    (options : ApplyOptions) : DeviceM σ Request := fun d =>
  match Frame.apply output flags options ⟨d, .empty⟩ with
  | .ok _ f => .ok f.request f.device
  | .error e f => .error e f.device

def Device.present {σ : Type} [Kernel σ] (output : OutputId) (flags : CommitFlags)
    (options : ApplyOptions) : DeviceM σ Unit := do
  Device.commit (← Device.prepare output flags options) flags

/-- Gives a layer another framebuffer and shows it. Answers how that ended, and the layer as it is
afterwards. -/
def Device.flip {σ : Type} [Kernel σ] (output : OutputId) (id : LayerId) (fb : UInt64)
    (options : ApplyOptions) : DeviceM σ (Except Error Unit × Layer) := do
  Device.setProperty id WellKnown.fbId.name fb
  let outcome ← fun d =>
    match Device.present output {} options d with
    | .ok _ d => .ok (.ok ()) d
    | .error (.error e) d => .ok (.error e) d
    | .error failure d => .error failure d
  pure (outcome, ← Device.layer id)

end Scanout
