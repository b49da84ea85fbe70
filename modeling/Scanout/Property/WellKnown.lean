namespace Scanout

inductive WellKnown where
  | fbId
  | crtcId
  | crtcX
  | crtcY
  | crtcW
  | crtcH
  | srcX
  | srcY
  | srcW
  | srcH
  | zpos
  | alpha
  | rotation
  deriving DecidableEq, Repr

namespace WellKnown

abbrev count : Nat := 13

def all : List WellKnown :=
  [fbId, crtcId, crtcX, crtcY, crtcW, crtcH, srcX, srcY, srcW, srcH, zpos, alpha, rotation]

def name : WellKnown → String
  | fbId => "FB_ID"
  | crtcId => "CRTC_ID"
  | crtcX => "CRTC_X"
  | crtcY => "CRTC_Y"
  | crtcW => "CRTC_W"
  | crtcH => "CRTC_H"
  | srcX => "SRC_X"
  | srcY => "SRC_Y"
  | srcW => "SRC_W"
  | srcH => "SRC_H"
  | zpos => "zpos"
  | alpha => "alpha"
  | rotation => "rotation"

def index : WellKnown → Fin count
  | fbId => 0
  | crtcId => 1
  | crtcX => 2
  | crtcY => 3
  | crtcW => 4
  | crtcH => 5
  | srcX => 6
  | srcY => 7
  | srcW => 8
  | srcH => 9
  | zpos => 10
  | alpha => 11
  | rotation => 12

def ofName? (name : String) : Option WellKnown := all.find? fun p => p.name == name

/-- No two properties share a position. -/
theorem index_injective {p q : WellKnown} (h : p.index = q.index) : p = q := by
  revert h
  cases p <;> cases q <;> decide

/-- What is found under a spelling is spelt so. -/
theorem name_eq_of_ofName? {name : String} {p : WellKnown} (h : ofName? name = some p) :
    p.name = name := by
  simpa using List.find?_some h

/-- Every spelling leads back to its property. -/
theorem ofName?_name (p : WellKnown) : ofName? p.name = some p := by cases p <;> decide

end WellKnown

end Scanout
