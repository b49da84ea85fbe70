namespace Scanout

structure Framebuffer where
  id : UInt32 := 0
  width : UInt32 := 0
  height : UInt32 := 0
  format : UInt32 := 0
  /-- The layout modifier; it means something only if `hasModifier` is set. -/
  modifier : UInt64 := 0
  hasModifier : Bool := false
  deriving DecidableEq, Repr, Inhabited

def Framebuffer.layoutDiffers (a b : Framebuffer) : Bool :=
  a.width != b.width || a.height != b.height || a.format != b.format || a.modifier != b.modifier

end Scanout
