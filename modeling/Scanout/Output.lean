import Scanout.Handle

namespace Scanout

structure Output where
  crtc : UInt32
  crtcIndex : Nat
  layers : List LayerId := []
  compositionLayer : Option LayerId := none
  layersChanged : Bool := false
  reusedCount : Nat := 0
  deriving DecidableEq, Repr

end Scanout
