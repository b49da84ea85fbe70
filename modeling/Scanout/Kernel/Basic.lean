import Scanout.Errno
import Scanout.Framebuffer
import Scanout.Property.Descriptor
import Scanout.Request
import Scanout.Time

/-!
# Display drivers

All that the allocator knows of the world: lists of pipes and planes, descriptions, a clock, and
atomic commits. A driver is a state together with its answers. Only a commit and a look at the
clock may change the state.

A test commit asks whether a request would be accepted, and is issued again when it is interrupted.
The driver says how often that can happen at most, or that it will go on for ever. So asking until
there is an answer is a total function, which has no answer in the second case.
-/

namespace Scanout

structure PlaneInfo where
  /-- Bit `i` stands for the `i`-th pipe of the driver's list. -/
  possibleCrtcs : UInt32
  properties : List (Property.Descriptor × UInt64)
  deriving DecidableEq, Repr

class Kernel (σ : Type) where
  crtcs : σ → Except Errno (List UInt32)
  planeIds : σ → Except Errno (List UInt32)
  plane : σ → UInt32 → Except Errno PlaneInfo
  blob : σ → UInt64 → Except Errno (List UInt8)
  /-- What is known of a framebuffer; `none` if the driver cannot tell. -/
  framebuffer : σ → UInt32 → Except Errno (Option Framebuffer)
  commit : σ → Request → CommitFlags → Except Errno Unit × σ
  now : σ → HostTime × σ
  timebase : σ → Timebase
  /-- How often a commit will be interrupted at most if it is issued again and again; `none` if for
  ever. -/
  interruptions : σ → Request → CommitFlags → Option Nat
  interruptions_lt : ∀ s request flags n e s', interruptions s request flags = some n →
    commit s request flags = (.error e, s') → e.isTransient = true →
    ∃ m < n, interruptions s' request flags = some m

namespace Kernel

variable {σ : Type} [Kernel σ]

/-- Asks whether the commit of a request with the given flags would be accepted, until the question
is not interrupted any more. There is no answer if it always is. -/
def test (s : σ) (request : Request) (flags : CommitFlags) : Option (Except Errno Unit) × σ :=
  match _ : interruptions s request flags.forTest with
  | none => (none, s)
  | some _ =>
    match _ : commit s request flags.forTest with
    | (.ok (), s') => (some (.ok ()), s')
    | (.error e, s') =>
      if _ : e.isTransient = true then test s' request flags else (some (.error e), s')
termination_by (interruptions s request flags.forTest).getD 0
decreasing_by
  obtain ⟨m, lt, left⟩ := interruptions_lt _ _ _ _ _ _ ‹_› ‹_› ‹_›
  simp [*]

end Kernel

end Scanout
