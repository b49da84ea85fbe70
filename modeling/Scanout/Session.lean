import Scanout.Kernel.Basic
import Scanout.Trace.Event

/-!
# Sessions

A session is the allocator's line to the driver: the driver's state, the number of test commits
since the last search began, and the trace so far. A test commit asks the driver whether it would
accept a request, and sorts its answer into yes, a plain incompatibility, and a real failure.
-/

namespace Scanout

/-- The sum of two counts, kept at the greatest 32-bit number once it is reached. -/
def addUpTo32 (a b : Nat) : Nat := min (a + b) (UInt32.size - 1)

structure Session (σ : Type) where
  kernel : σ
  testCommits : Nat := 0
  /-- What happened so far, the latest event in front. -/
  trace : List Event := []

abbrev SessionM (σ : Type) := EStateM Failure (Session σ)

namespace Session

variable {σ : Type}

def events (s : Session σ) : List Event := s.trace.reverse

def emit (e : Event) : SessionM σ Unit := modify fun s => { s with trace := e :: s.trace }

def log (severity : Severity) (note : Note) : SessionM σ Unit := emit (.log severity note)

variable [Kernel σ]

def now : SessionM σ HostTime :=
  modifyGet fun s =>
    let (t, kernel) := Kernel.now s.kernel
    (t, { s with kernel })

/-- Asks the driver whether it would accept the request, with the caller's flags. Answers the
driver's objection if it has one, and fails if the answer is anything but an incompatibility. -/
def testCommit (request : Request) (flags : CommitFlags) : SessionM σ (Option Errno) := do
  modify fun s => { s with testCommits := addUpTo32 s.testCommits 1 }
  let reply ← modifyGet fun s =>
    let (reply, kernel) := Kernel.test s.kernel request flags
    (reply, { s with kernel })
  match reply with
  | none => throw .stuck
  | some (.ok ()) => pure none
  | some (.error e) =>
    if e.isIncompatibility then pure (some e)
    else do
      log .error (.testCommitFailed e)
      throw (.error (.kernel e))

end Session

end Scanout
