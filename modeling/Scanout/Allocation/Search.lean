import Scanout.Allocation.Frame

/-!
# The search

Planes are visited in order. On each one that is free, every layer that could go there is tried, and
then the plane is left empty. A choice that the stacking rules allow is staged and tested before the
search goes deeper. Branches that cannot beat the best allocation found so far are not entered, and
once the time is spent no more layers are tried.

A path holds the choices made so far, the latest in front. Everything the rules ask about earlier
choices is read off the path.
-/

namespace Scanout
namespace Search

structure Choice where
  plane : Plane
  layer : Option LayerId
  deriving Repr

/-- The choices made so far, the latest in front. -/
abbrev Path := List Choice

/-- What a search reads and never changes. -/
structure Scene where
  layers : Arena Layer
  output : Output
  flags : CommitFlags
  started : HostTime
  timeout : Duration

structure Best where
  score : Nat
  path : Path

structure State (σ : Type) where
  session : Session σ
  request : Request
  best : Option Best := none
  /-- Layers with the planes that could take their properties, the latest discovery in front. -/
  hints : List (LayerId × UInt32) := []

end Search

abbrev SearchM (σ : Type) := EStateM Failure (Search.State σ)

namespace Search

def greatestZpos : Int := Int64.maxValue.toInt

def leastZpos : Int := Int64.minValue.toInt

namespace Path

def holds (path : Path) (id : LayerId) : Bool := path.any fun c => c.layer = some id

def isOpen (path : Path) (id : LayerId) (l : Layer) : Bool :=
  l.plane.isNone && l.isVisible && !path.holds id

end Path

namespace Scene

def layer? (s : Scene) (id : LayerId) : Option Layer := s.layers.get? id.toHandle

def isComposition (s : Scene) (id : LayerId) : Bool := s.output.compositionLayer = some id

def chosen? (s : Scene) (c : Choice) : Option Layer := c.layer.bind s.layer?

def chosenZpos? (s : Scene) (c : Choice) : Option Int := (s.chosen? c).bind Layer.zpos?

def score (s : Scene) (path : Path) : Nat :=
  path.countP fun c => c.layer.any fun id => !s.isComposition id

def isComposited (s : Scene) (path : Path) : Bool := path.any fun c => c.layer.any s.isComposition

def ordinaryCount (s : Scene) : Nat :=
  s.output.layers.countP fun id => !s.isComposition id && (s.layer? id).any Layer.isVisible

/-- The stacking position of the layer placed last on a plane that is not primary; the greatest one
before any was placed. -/
def lastOverlayZpos (s : Scene) (path : Path) : Int :=
  ((path.filter fun c => !c.plane.isPrimary).findSome? s.chosenZpos?).getD greatestZpos

def primaryZpos (s : Scene) (path : Path) : Int × Int :=
  ((path.filter fun c => c.plane.isPrimary).findSome? fun c =>
    (s.chosenZpos? c).map fun z => (z, c.plane.zpos)).getD (leastZpos, greatestZpos)

def placed (s : Scene) (path : Path) : List (Plane × Layer) :=
  (path.filter fun c => !c.plane.isPrimary).filterMap fun c =>
    (s.chosen? c).map fun l => (c.plane, l)

def hasCompositedLayerOver (s : Scene) (path : Path) (l : Layer) : Bool :=
  l.zpos?.any fun zpos =>
    s.output.layers.any fun id =>
      !path.holds id &&
        (s.layer? id).any fun other => other.zpos?.any (· > zpos) && l.intersects other

def isAbovePlaced (s : Scene) (path : Path) (l : Layer) (zpos : Int) : Bool :=
  zpos > s.lastOverlayZpos path &&
    (s.placed path).any fun p => p.2.zpos?.any (zpos > ·) && l.intersects p.2

def isNotBelowPlaced (s : Scene) (path : Path) (p : Plane) (l : Layer) (zpos : Int) : Bool :=
  zpos < s.lastOverlayZpos path &&
    (s.placed path).any fun q => p.zpos ≥ q.1.zpos && l.intersects q.2

def rejection? (s : Scene) (path : Path) (p : Plane) (id : LayerId) (l : Layer) :
    Option Rejection :=
  let stacking := l.zpos?.bind fun zpos =>
    if s.isAbovePlaced path l zpos then some .layerZposAbove
    else if s.isNotBelowPlaced path p l zpos then some .planeZposBelow
    else if !p.isPrimary && zpos < (s.primaryZpos path).1 && p.zpos > (s.primaryZpos path).2 then
      some .underPrimary
    else none
  stacking.or <|
    if !p.isPrimary && s.hasCompositedLayerOver path l then some .compositedLayerOver
    else if !p.isPrimary && s.isComposition id then some .compositionOnOverlay
    else none

def isValid (s : Scene) (path : Path) : Bool :=
  let complete := s.score path = s.ordinaryCount
  if s.isComposited path then !complete else s.output.compositionLayer.isNone || complete

end Scene

def isHopeless (s : Scene) (best : Option Best) (path : Path) (left : Nat) : Bool :=
  best.any fun b => b.score ≥ s.score path + left

def misfit? (p : Plane) (l : Layer) : Option Incompatibility :=
  if l.forcedComposition then some .forcedComposition
  else if !p.allowsFramebuffer l then some .fbFormat
  else none

section Steps

variable {σ : Type}

def onSession {α : Type} (x : SessionM σ α) : SearchM σ α := fun s =>
  match x s.session with
  | .ok a session => .ok a { s with session }
  | .error e session => .error e { s with session }

def emit (e : Event) : SearchM σ Unit := onSession (Session.emit e)

def rollback (cursor : Nat) : SearchM σ Unit :=
  modify fun s => { s with request := s.request.rollback cursor }

def addHint (id : LayerId) (plane : UInt32) : SearchM σ Unit :=
  modify fun s => { s with hints := (id, plane) :: s.hints }

def stage (p : Plane) (l : Layer) (crtc : UInt32) : SearchM σ (Option Incompatibility) :=
  modifyGet fun s =>
    match p.stageLayer l crtc s.request with
    | .ok _ request => (none, { s with request })
    | .error why request => (some why, { s with request })

def report (path : Path) (p : Plane) (id : LayerId) (verdict : Verdict) : SearchM σ Unit :=
  emit (.candidate path.length p.id id verdict)

def finish (s : Scene) (path : Path) : SearchM σ Unit := do
  let beaten := (← get).best.any fun b => s.score path ≤ b.score
  if !beaten && s.isValid path then
    modify ({ · with best := some ⟨s.score path, path⟩ })
    emit (.best path.length (s.score path))

variable [Kernel σ]

def testCommit (s : Scene) : SearchM σ (Option Errno) := do
  let request := (← get).request
  onSession (Session.testCommit request s.flags)

def tryStaged (s : Scene) (path : Path) (p : Plane) (cursor : Nat)
    (descend : LayerId → SearchM σ Unit) (id : LayerId) (l : Layer) : SearchM σ Unit := do
  match ← stage p l s.output.crtc with
  | some why => report path p id (.incompatible why)
  | none =>
    -- The hint is kept even if the layer is refused below: another framebuffer may fit this plane.
    addHint id p.id
    match misfit? p l with
    | some why =>
      rollback cursor
      report path p id (.incompatible why)
    | none =>
      match ← testCommit s with
      | none =>
        report path p id .accepted
        descend id
      | some e => report path p id (.incompatible (.kernel e))
      rollback cursor

def tryLayer (s : Scene) (path : Path) (p : Plane) (cursor : Nat)
    (descend : LayerId → SearchM σ Unit) (id : LayerId) : SearchM σ Bool := do
  let some l := s.layer? id | pure true
  if !path.isOpen id l then pure true
  else
    match s.rejection? path p id l with
    | some rule =>
      report path p id (.rejected rule)
      pure true
    | none =>
      let elapsed := (← onSession Session.now).since s.started
      if s.timeout ≤ elapsed then
        emit (.deadline p.id elapsed)
        pure false
      else
        tryStaged s path p cursor descend id l
        pure true

def tryLayers (s : Scene) (path : Path) (p : Plane) (cursor : Nat)
    (descend : LayerId → SearchM σ Unit) : List LayerId → SearchM σ Unit
  | [] => pure ()
  | id :: ids => do
    if ← tryLayer s path p cursor descend id then tryLayers s path p cursor descend ids

def choose (s : Scene) : List Plane → Path → SearchM σ Unit
  | [], path => finish s path
  | p :: planes, path => do
    let left := (p :: planes).countP fun q => q.isFreeFor s.output.crtcIndex
    -- At best every free plane from here on takes one more layer.
    if isHopeless s (← get).best path left then pure ()
    else
      let cursor := (← get).request.cursor
      if p.isFreeFor s.output.crtcIndex then
        tryLayers s path p cursor (fun id => choose s planes (⟨p, some id⟩ :: path)) s.output.layers
      -- The empty plane comes last, so that fuller allocations are found first.
      choose s planes (⟨p, none⟩ :: path)
      rollback cursor

end Steps

end Search
end Scanout
