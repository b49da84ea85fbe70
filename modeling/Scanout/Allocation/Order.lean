import Scanout.Device.Basic

/-!
# Layer order

Which layers a search tries first. The comparison mixes stacking and update frequency and is not a
total order, so the list is arranged by selection: each place in turn goes to the layer that wins
against the winner so far, which swaps places with it.
-/

namespace Scanout

/-- Whether `l` should be tried before `m`, both of them ordinary layers. Overlapping layers go by
stacking, since the upper one has to leave composition first; others go by priority. -/
def Layer.precedes (l m : Layer) : Bool :=
  if l.isVisible != m.isVisible then l.isVisible
  else
    match l.zpos?, m.zpos? with
    | some a, some b =>
      if l.intersects m then
        if a = b then l.priority > m.priority else a > b
      else if l.priority = m.priority then a > b
      else l.priority > m.priority
    | none, none => l.priority > m.priority
    | some _, none => true
    | none, some _ => false

namespace Allocation

/-- Whether the first layer should be tried before the second. The composition layer comes before
every other. -/
def isHigherPriority (layers : Arena Layer) (composition : Option LayerId) (l m : LayerId) : Bool :=
  if composition = some l then true
  else if composition = some m then false
  else
    match layers.get? l.toHandle, layers.get? m.toHandle with
    | some l, some m => l.precedes m
    | _, _ => false

/-- The element that wins when each of `xs` is compared with the winner so far, starting from `x`,
with its place in `xs` if it is not `x` itself. -/
def winner {α : Type} (beats : α → α → Bool) (x : α) (xs : List α) : α × Option Nat :=
  xs.zipIdx.foldl
    (fun best challenger =>
      if beats challenger.1 best.1 then (challenger.1, some challenger.2) else best)
    (x, none)

def arrange {α : Type} (beats : α → α → Bool) : List α → List α × Bool
  | [] => ([], false)
  | x :: xs =>
    match winner beats x xs with
    | (_, none) =>
      let (arranged, changed) := arrange beats xs
      (x :: arranged, changed)
    | (best, some i) => (best :: (arrange beats (xs.set i x)).1, true)
termination_by xs => xs.length

def updateOrder {σ : Type} (id : OutputId) : DeviceM σ Bool := do
  let d ← get
  let o ← Device.output id
  let (layers, changed) := arrange (isHigherPriority d.layers o.compositionLayer) o.layers
  modify (·.withOutput id ({ · with layers }))
  pure changed

end Allocation
end Scanout
