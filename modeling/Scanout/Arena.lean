import Scanout.Handle

/-!
# Slot storage behind the handles

Removed slots go on a free list, most recent first, and are given out again before new ones are
made. Giving a slot out again moves its generation on, so handles to the previous occupant no
longer resolve.
-/

namespace Scanout

structure Slot (α : Type) where
  generation : UInt32
  value : Option α
  deriving Repr

structure Arena (α : Type) where
  slots : List (Slot α) := []
  /-- Empty slots, the one emptied last in front. -/
  free : List Nat := []

namespace Arena

variable {α : Type}

instance : Inhabited (Arena α) := ⟨{}⟩

def slot? (a : Arena α) (h : Handle) : Option (Slot α) :=
  a.slots[h.index.toNat]?.filter fun s => s.generation = h.generation

def get? (a : Arena α) (h : Handle) : Option α := (a.slot? h).bind Slot.value

def insert (a : Arena α) (x : α) : Handle × Arena α :=
  match a.free with
  | i :: free =>
    -- Handles to the previous occupant carry the generation before.
    let generation := (a.slots[i]?.map (·.generation + 1)).getD 0
    (⟨UInt32.ofNat i, generation⟩, ⟨a.slots.set i ⟨generation, some x⟩, free⟩)
  | [] =>
    (⟨UInt32.ofNat a.slots.length, 0⟩, { a with slots := a.slots ++ [⟨0, some x⟩] })

/-- Edits the object a handle names; a handle that names none changes nothing. -/
def modify (a : Arena α) (h : Handle) (f : α → α) : Arena α :=
  { a with slots := a.slots.modify h.index.toNat fun s =>
      if s.generation = h.generation then { s with value := s.value.map f } else s }

/-- Takes out the object a handle names; a handle that names none changes nothing. -/
def remove (a : Arena α) (h : Handle) : Arena α :=
  if (a.get? h).isSome then
    ⟨a.slots.modify h.index.toNat fun s => { s with value := none }, h.index.toNat :: a.free⟩
  else a

def toList (a : Arena α) : List (Handle × α) :=
  a.slots.zipIdx.filterMap fun (s, i) => s.value.map fun x => (⟨UInt32.ofNat i, s.generation⟩, x)

def map (a : Arena α) (f : α → α) : Arena α :=
  { a with slots := a.slots.map fun s => { s with value := s.value.map f } }

end Arena

end Scanout
