namespace Scanout

structure Errno where
  code : Int
  deriving DecidableEq, Repr, Inhabited

namespace Errno

def enoent : Errno := ⟨2⟩

def eintr : Errno := ⟨4⟩

def eio : Errno := ⟨5⟩

def eagain : Errno := ⟨11⟩

def einval : Errno := ⟨22⟩

def enospc : Errno := ⟨28⟩

def erange : Errno := ⟨34⟩

def isIncompatibility (e : Errno) : Bool := e = einval || e = erange || e = enospc

def isTransient (e : Errno) : Bool := e = eintr || e = eagain

def name? (e : Errno) : Option String :=
  match e.code with
  | 2 => some "ENOENT"
  | 4 => some "EINTR"
  | 11 => some "EAGAIN"
  | 12 => some "ENOMEM"
  | 16 => some "EBUSY"
  | 17 => some "EEXIST"
  | 22 => some "EINVAL"
  | 28 => some "ENOSPC"
  | 34 => some "ERANGE"
  | _ => none

def message (e : Errno) : String :=
  match e.name? with
  | some name => s!"{name} ({e.code})"
  | none => s!"errno {e.code}"

def label (e : Errno) : String :=
  match e.name? with
  | some name => s!"Errno({name})"
  | none => s!"Errno({e.code})"

/-- No error is both an incompatibility and an interruption. -/
theorem not_isTransient_of_isIncompatibility {e : Errno} (h : e.isIncompatibility = true) :
    e.isTransient = false := by
  simp only [isIncompatibility, Bool.or_eq_true, decide_eq_true_eq] at h
  rcases h with (rfl | rfl) | rfl <;> decide

end Errno

end Scanout
