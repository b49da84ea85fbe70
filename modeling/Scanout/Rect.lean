namespace Scanout

structure Rect where
  left : Int
  top : Int
  right : Int
  bottom : Int
  deriving DecidableEq, Repr

namespace Rect

def ofSize (x y width height : Int) : Rect := ⟨x, y, x + width, y + height⟩

def overlaps (a b : Rect) : Bool :=
  a.left < b.right && a.top < b.bottom && b.left < a.right && b.top < a.bottom

/-- Overlap is symmetric. -/
theorem overlaps_comm (a b : Rect) : a.overlaps b = b.overlaps a := by
  simp only [overlaps]
  ac_rfl

end Rect

end Scanout
