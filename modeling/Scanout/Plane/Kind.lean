namespace Scanout

inductive PlaneKind where
  | overlay
  | primary
  | cursor
  deriving DecidableEq, Repr

namespace PlaneKind

/-- The kind a plane declares in its type property; unknown values are overlays. -/
def ofValue (value : UInt64) : PlaneKind :=
  if value = 1 then primary else if value = 2 then cursor else overlay

def value : PlaneKind → UInt64
  | overlay => 0
  | primary => 1
  | cursor => 2

def label : PlaneKind → String
  | overlay => "Overlay"
  | primary => "Primary"
  | cursor => "Cursor"

/-- The stacking position assumed for a plane that declares none. An overlay goes under the
reference plane when its id is lower, and over it otherwise. -/
def guessedZpos (kind : PlaneKind) (plane : UInt32) (reference : Option UInt32) : Int :=
  match kind, reference with
  | primary, _ => 0
  | cursor, _ => 2
  | overlay, some r => if plane < r then -1 else 1
  | overlay, none => 0

end PlaneKind

end Scanout
