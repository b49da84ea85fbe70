import Scanout.Plane.Staging
import Scanout.Time

namespace Scanout

inductive Severity where
  | error
  | debug
  deriving DecidableEq, Repr

inductive ReallocCause where
  | structural
  | fbToggled
  | fbLayout
  | alpha
  | intersection
  | property
  deriving DecidableEq, Repr

inductive ReuseBlocker where
  | layersChanged
  | layerNeedsRealloc (layer : LayerId) (cause : ReallocCause)
  | orderChanged
  deriving DecidableEq, Repr

inductive ReuseOutcome where
  | skipped (blocker : ReuseBlocker)
  | accepted
  | rejected (errno : Errno)
  deriving DecidableEq, Repr

inductive Rejection where
  | layerZposAbove
  | planeZposBelow
  | underPrimary
  | compositedLayerOver
  | compositionOnOverlay
  deriving DecidableEq, Repr

inductive Verdict where
  | accepted
  | rejected (rule : Rejection)
  | incompatible (why : Incompatibility)
  deriving DecidableEq, Repr

inductive LayerRole where
  | plain
  | forcedComposition
  | composition
  deriving DecidableEq, Repr

inductive Note where
  | planeRegisteredTwice (plane : UInt32)
  | planeWithoutType (plane : UInt32)
  | malformedFormats (plane : UInt32) (blob : UInt64)
  | planeRegistered (plane : UInt32) (kind : PlaneKind) (zpos : Int) (position : Nat)
  | framebufferQueryFailed (fb : UInt32) (errno : Errno)
  | reusing (crtc : UInt32)
  | stoppedReusing (crtc : UInt32) (times : Nat)
  | layersOn (crtc : UInt32) (total : Nat)
  | layer (id : LayerId) (role : LayerRole) (priority : Nat)
  | layerProperty (name : String) (value : UInt64)
  | allocationFound (output : OutputId) (score : Option Nat) (freePlanes tests : Nat)
  | noLayerPlaced
  | testCommitFailed (errno : Errno)
  | commitFailed (errno : Errno)
  | text (message : String)
  deriving DecidableEq, Repr

inductive Event where
  | applyBegin (output : OutputId) (crtc : UInt32) (layers : Nat) (time : HostTime)
  | reuse (output : OutputId) (outcome : ReuseOutcome)
  | candidate (depth : Nat) (plane : UInt32) (layer : LayerId) (verdict : Verdict)
  | best (depth score : Nat)
  | deadline (plane : UInt32) (elapsed : Duration)
  | priorityChange (layer : LayerId) (old new : Nat)
  | assignment (output : OutputId) (plane : UInt32) (layer : LayerId)
  | applyEnd (output : OutputId) (reused : Bool) (score : Option Nat) (testCommits : Nat)
      (elapsed : Duration) (time : HostTime)
  | log (severity : Severity) (note : Note)
  deriving DecidableEq, Repr

end Scanout
