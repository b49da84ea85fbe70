import Scanout.Device.Layers
import Scanout.Kernel.Mock

namespace Scanout

def Device.addMockLayer (output : OutputId) (x y : Int) (width height : UInt32) :
    DeviceM Mock LayerId := do
  let id ← createLayer output
  let fb ← onKernel (Mock.createFb id)
  let properties : List (WellKnown × UInt64) :=
    [(.fbId, fb.toUInt64), (.crtcX, UInt64.ofInt x), (.crtcY, UInt64.ofInt y),
      (.crtcW, width.toUInt64), (.crtcH, height.toUInt64), (.srcX, 0), (.srcY, 0),
      (.srcW, width.toUInt64 <<< 16), (.srcH, height.toUInt64 <<< 16)]
  properties.forM fun p => setProperty id p.1.name p.2
  pure id

end Scanout
