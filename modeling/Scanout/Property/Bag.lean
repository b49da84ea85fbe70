import Scanout.Property.WellKnown

/-!
# Property bags

A layer's properties, by name. Each entry also keeps the value it had when the layer was last
marked clean, so that the next frame can tell what moved. A side table leads from each well-known
name straight to its entry. Removing an entry moves the last one into its place.
-/

namespace Scanout
namespace Property

structure Entry where
  name : String
  value : UInt64
  /-- The value at the last clean mark; zero if the entry is younger than that. -/
  cleanValue : UInt64 := 0
  deriving DecidableEq, Repr

namespace Entry

def wellKnown? (e : Entry) : Option WellKnown := WellKnown.ofName? e.name

def isDirty (e : Entry) : Bool := e.value != e.cleanValue

end Entry

def swapRemove {α : Type} (xs : List α) (i : Nat) : List α :=
  match xs.getLast? with
  | some x => (xs.set i x).dropLast
  | none => []

structure Bag where
  entries : List Entry := []
  places : Vector (Option Nat) WellKnown.count := Vector.replicate _ none
  deriving DecidableEq, Repr

namespace Bag

instance : Inhabited Bag := ⟨{}⟩

def empty : Bag := {}

def size (b : Bag) : Nat := b.entries.length

def wellKnown? (b : Bag) (p : WellKnown) : Option Entry :=
  b.places[p.index].bind fun i => b.entries[i]?

def value? (b : Bag) (p : WellKnown) : Option UInt64 := (b.wellKnown? p).map Entry.value

def get? (b : Bag) (name : String) : Option Entry :=
  match WellKnown.ofName? name with
  | some p => b.wellKnown? p
  | none => b.entries.find? fun e => e.name == name

def place? (b : Bag) (name : String) : Option Nat :=
  match WellKnown.ofName? name with
  | some p => b.places[p.index]
  | none => b.entries.findIdx? fun e => e.name == name

def movePlace (places : Vector (Option Nat) WellKnown.count) (name : String)
    (place : Option Nat) : Vector (Option Nat) WellKnown.count :=
  match WellKnown.ofName? name with
  | some p => places.set p.index place
  | none => places

/-- Gives a property a value, adding the property if it is new; tells whether it was. -/
def set (b : Bag) (name : String) (value : UInt64) : Bool × Bag :=
  match b.place? name with
  | some i => (false, { b with entries := b.entries.modify i ({ · with value }) })
  | none =>
    (true, ⟨b.entries ++ [{ name, value }], movePlace b.places name (some b.entries.length)⟩)

/-- Removes a property; tells whether it was there. -/
def remove (b : Bag) (name : String) : Bool × Bag :=
  match b.entries.findIdx? fun e => e.name == name with
  | none => (false, b)
  | some i =>
    let entries := swapRemove b.entries i
    let places := movePlace b.places name none
    -- The entry that is now at `i` came from the end, unless the removed one was the last.
    match entries[i]? with
    | some moved => (true, ⟨entries, movePlace places moved.name (some i)⟩)
    | none => (true, ⟨entries, places⟩)

def markClean (b : Bag) : Bag :=
  { b with entries := b.entries.map fun e => { e with cleanValue := e.value } }

end Bag

end Property
end Scanout
