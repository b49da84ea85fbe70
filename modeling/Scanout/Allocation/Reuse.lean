import Scanout.Allocation.Frame

namespace Scanout

namespace Property.Entry

def isMove (e : Entry) : Bool :=
  e.isDirty &&
    match e.wellKnown? with
    | some .crtcX | some .crtcY | some .crtcW | some .crtcH => true
    | _ => false

end Property.Entry

namespace Layer

def isExtremeAlpha (value : UInt64) : Bool := value = 0 || value = 0xFFFF

/-- Why one property alone asks for a new allocation. Values that only matter together with other
layers, and those that never matter to planes, do not. -/
def reallocCause? (l : Layer) (e : Property.Entry) : Option ReallocCause :=
  match e.wellKnown? with
  | some .fbId =>
    if e.value = 0 && e.cleanValue = 0 then none
    else if e.value = 0 || e.cleanValue = 0 then some .fbToggled
    else if (l.framebuffer.getD {}).layoutDiffers (l.cleanFramebuffer.getD {}) then some .fbLayout
    else none
  | known? =>
    if !e.isDirty || e.isMove then none
    else if known? = some .alpha then
      if isExtremeAlpha e.value || isExtremeAlpha e.cleanValue then some .alpha else none
    else if e.name = "IN_FENCE_FD" || e.name = "FB_DAMAGE_CLIPS" then none
    else some .property

def overlapChanged (l other : Layer) : Bool :=
  l.screenRect.overlaps other.screenRect != l.cleanScreenRect.overlaps other.cleanScreenRect

end Layer

namespace Allocation

def needsRealloc (layers : Arena Layer) (o : Output) (id : LayerId) : Option ReallocCause := do
  let l ← layers.get? id.toHandle
  if l.changed then return .structural
  if let some cause := l.properties.entries.findSome? l.reallocCause? then return cause
  let others := (o.layers.filter (· ≠ id)).filterMap fun other => layers.get? other.toHandle
  if l.properties.entries.any Property.Entry.isMove && others.any l.overlapChanged then
    return .intersection
  none

def reuseBlocker (layers : Arena Layer) (o : Output) (orderChanged : Bool) : Option ReuseBlocker :=
  if o.layersChanged then some .layersChanged
  else
    match o.layers.findSome? fun id => (needsRealloc layers o id).map fun cause => (id, cause) with
    | some (id, cause) => some (.layerNeedsRealloc id cause)
    | none => if orderChanged then some .orderChanged else none

/-- Stages the present allocation and tests it. Answers the objection if there is one; then nothing
stays staged. -/
def tryReuse {σ : Type} [Kernel σ] (flags : CommitFlags) : FrameM σ (Option Errno) := do
  let f ← get
  let cursor := f.request.cursor
  match ← Frame.attempt (Frame.onRequest f.device.stageCurrent) with
  -- A staging that fails has taken its writes back already.
  | .error (.error (.kernel e)) => pure (some e)
  | .error failure => throw failure
  | .ok () =>
    match ← Frame.attempt (Frame.testCommit flags) with
    | .ok none => pure none
    | .ok (some e) =>
      Frame.rollback cursor
      pure (some e)
    | .error failure =>
      Frame.rollback cursor
      throw failure

end Allocation
end Scanout
