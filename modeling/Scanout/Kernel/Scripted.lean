import Scanout.Kernel.Basic

namespace Scanout

structure ScriptedFb where
  key : UInt32
  answer : Except Errno (Option Framebuffer)

structure Scripted where
  crtcs : Except Errno (List UInt32)
  planeIds : Except Errno (List UInt32)
  /-- Planes with what is said about them; the first entry for an id counts. -/
  planes : List (UInt32 × Except Errno PlaneInfo)
  /-- Blobs with what is said about them; the first entry for an id counts. -/
  blobs : List (UInt64 × Except Errno (List UInt8)) := []
  /-- Framebuffers with what is said about them; the last entry for an id counts. -/
  fbs : List ScriptedFb := []
  /-- The planes and framebuffers that go together; without a list all do. -/
  allowed : Option (List (UInt32 × UInt64)) := none
  refusal : Errno := .einval
  /-- How the next commits end; zero is success. -/
  results : List Int := []
  clock : HostTime := ⟨0⟩
  nowCost : UInt64 := 0
  commitCost : UInt64 := 0
  timebase : Timebase := .nanos
  commitCount : Nat := 0

namespace Scripted

/-- The framebuffer a request writes to a plane; zero if it writes none. -/
def writtenFb (request : Request) (plane : UInt32) (info : PlaneInfo) : UInt64 :=
  match info.properties.find? fun p => p.1.name == "FB_ID" with
  | some p => (request.value? plane p.1.id).getD 0
  | none => 0

def allows (s : Scripted) (request : Request) : Bool :=
  match s.allowed with
  | none => true
  | some allowed => s.planes.all fun (plane, answer) =>
      match answer with
      | .error _ => true
      | .ok info =>
        let fb := writtenFb request plane info
        fb = 0 || allowed.contains (plane, fb)

def commit (s : Scripted) (request : Request) (_ : CommitFlags) : Except Errno Unit × Scripted :=
  let s :=
    { s with commitCount := s.commitCount + 1, clock := s.clock.advance s.commitCost }
  match s.results with
  | result :: results =>
    (if result = 0 then .ok () else .error ⟨result⟩, { s with results })
  | [] => (if s.allows request then .ok () else .error s.refusal, s)

/-- How often a commit can be interrupted: by each of the results, and by a refusal that is an
interruption once and for all, unless a result before it ends the commit. -/
def interruptions (s : Scripted) (request : Request) : Option Nat :=
  let resultsInterrupt := s.results.all fun result => (Errno.mk result).isTransient
  if resultsInterrupt && s.refusal.isTransient && !s.allows request then none
  else some s.results.length

/-- Every interrupted commit uses up one of the results. -/
theorem interruptions_commit {s s' : Scripted} {request : Request} {flags : CommitFlags} {n : Nat}
    {e : Errno} (bound : s.interruptions request = some n)
    (outcome : s.commit request flags = (.error e, s')) (transient : e.isTransient = true) :
    ∃ m < n, s'.interruptions request = some m := by
  simp only [interruptions, Option.ite_none_left_eq_some, Option.some.injEq] at bound
  obtain ⟨finite, rfl⟩ := bound
  simp only [commit] at outcome
  split at outcome
  · rename_i result results eq
    obtain ⟨reply, rfl⟩ := Prod.mk.inj outcome
    have interrupting : (Errno.mk result).isTransient = true := by
      split at reply <;> cases reply
      exact transient
    refine ⟨results.length, by simp [eq], ?_⟩
    rw [interruptions, if_neg]
    simpa [eq, interrupting, allows] using finite
  · rename_i eq
    have reply := congrArg Prod.fst outcome
    simp only at reply
    split at reply <;> cases reply
    rename_i refused
    simp_all [allows]

instance : Kernel Scripted where
  crtcs := Scripted.crtcs
  planeIds := Scripted.planeIds
  plane s id := ((s.planes.find? fun p => p.1 = id).map Prod.snd).getD (.error .enoent)
  blob s id := ((s.blobs.find? fun b => b.1 = id).map Prod.snd).getD (.error .einval)
  framebuffer s id :=
    ((s.fbs.reverse.find? fun fb => fb.key = id).map ScriptedFb.answer).getD (.ok none)
  commit := commit
  now s := (s.clock, { s with clock := s.clock.advance s.nowCost })
  timebase := Scripted.timebase
  interruptions s request _ := s.interruptions request
  interruptions_lt _ _ _ _ _ _ := interruptions_commit

end Scripted

end Scanout
