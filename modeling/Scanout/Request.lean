namespace Scanout

structure Write where
  object : UInt32
  property : UInt32
  value : UInt64
  deriving DecidableEq, Repr, Inhabited

structure Request where
  writes : List Write := []
  deriving DecidableEq, Repr, Inhabited

namespace Request

def empty : Request := {}

def add (r : Request) (object property : UInt32) (value : UInt64) : Request :=
  ⟨r.writes ++ [⟨object, property, value⟩]⟩

def append (r : Request) (writes : List Write) : Request := ⟨r.writes ++ writes⟩

def size (r : Request) : Nat := r.writes.length

def cursor (r : Request) : Nat := r.size

/-- Forgets all writes staged since the cursor was taken; a cursor past the end changes nothing. -/
def rollback (r : Request) (cursor : Nat) : Request := ⟨r.writes.take cursor⟩

def value? (r : Request) (object property : UInt32) : Option UInt64 :=
  (r.writes.reverse.find? fun w => w.object = object && w.property = property).map Write.value

/-- Rolling back undoes the writes staged since the cursor was taken, and no others. -/
@[simp]
theorem rollback_cursor_append (r : Request) (writes : List Write) :
    (r.append writes).rollback r.cursor = r := by
  simp [append, rollback, cursor, size]

@[simp]
theorem rollback_cursor (r : Request) : r.rollback r.cursor = r := by
  simp [rollback, cursor, size]

end Request

structure CommitFlags where
  bits : UInt32 := 0
  deriving DecidableEq, Repr, Inhabited

namespace CommitFlags

def pageFlipEvent : CommitFlags := ⟨0x0001⟩

def testOnly : CommitFlags := ⟨0x0100⟩

def isTest (f : CommitFlags) : Bool := f.bits &&& testOnly.bits = testOnly.bits

def forTest (f : CommitFlags) : CommitFlags :=
  ⟨(f.bits &&& ~~~pageFlipEvent.bits) ||| testOnly.bits⟩

/-- The flags of a test commit ask for validation only. -/
theorem isTest_forTest (f : CommitFlags) : f.forTest.isTest = true := by
  refine decide_eq_true ?_
  rw [← UInt32.toBitVec_inj]
  ext i
  simp [forTest]
  grind

end CommitFlags

end Scanout
