import Scanout.Errno
import Scanout.Handle

/-!
# Errors and faults

An `Error` is an answer a caller has to expect: the driver failed, a plane lacks something. A
`Fault` is a mistake of the caller, such as a handle kept past the end of its object; no operation
recovers from one. Nor does one from a driver that never comes to an answer.
-/

namespace Scanout

def quoted (text : String) : String :=
  let escape (c : Char) : String :=
    match c with
    | '"' => "\\\""
    | '\\' => "\\\\"
    | '\n' => "\\n"
    | '\r' => "\\r"
    | '\t' => "\\t"
    | '\x00' => "\\0"
    | c => c.toString
  "\"" ++ String.join (text.toList.map escape) ++ "\""

inductive Error where
  | kernel (errno : Errno)
  | reservedProperty (name : String)
  | unknownCrtc (crtc : UInt32)
  | duplicatePlane (plane : UInt32)
  | missingPlaneType (plane : UInt32)
  | missingPlaneProperty (plane : UInt32) (property : String)
  | foreignLayer
  deriving DecidableEq, Repr

def Error.message : Error → String
  | .kernel errno => s!"kernel request failed: {errno.message}"
  | .reservedProperty name => s!"property {quoted name} is managed by the device"
  | .unknownCrtc crtc => s!"no CRTC with object id {crtc}"
  | .duplicatePlane plane => s!"plane {plane} is already registered"
  | .missingPlaneType plane => s!"plane {plane} has no type property"
  | .missingPlaneProperty plane property => s!"plane {plane} has no {quoted property} property"
  | .foreignLayer => "layer belongs to another output"

def Error.name : Error → String
  | .kernel _ => "Kernel"
  | .reservedProperty _ => "ReservedProperty"
  | .unknownCrtc _ => "UnknownCrtc"
  | .duplicatePlane _ => "DuplicatePlane"
  | .missingPlaneType _ => "MissingPlaneType"
  | .missingPlaneProperty .. => "MissingPlaneProperty"
  | .foreignLayer => "ForeignLayer"

inductive Fault where
  | staleLayer (id : LayerId)
  | staleOutput (id : OutputId)
  /-- A clock rate was given with a part equal to zero. -/
  | zeroTimebasePart
  /-- A conversion divided by a part equal to zero. -/
  | zeroDivisor
  /-- Priorities were asked to be promoted every zero applies. -/
  | zeroPriorityPeriod
  | unknownMockPlane (plane : UInt32)
  | unknownMockFramebuffer (fb : UInt32)
  deriving DecidableEq, Repr

def hexadecimal (n : Nat) : String := "0x" ++ String.ofList (Nat.toDigits 16 n)

def Fault.message : Fault → String
  | .staleLayer id => s!"stale LayerId: {id.label}"
  | .staleOutput id => s!"stale OutputId: {id.label}"
  | .zeroTimebasePart => "timebase ratio parts must not be zero"
  | .zeroDivisor => "attempt to divide by zero"
  | .zeroPriorityPeriod => "priority period must be at least one frame"
  | .unknownMockPlane plane => s!"unknown mock plane {hexadecimal plane.toNat}"
  | .unknownMockFramebuffer fb => s!"unknown mock framebuffer {hexadecimal fb.toNat}"

inductive Failure where
  | error (e : Error)
  | fault (f : Fault)
  | stuck
  deriving DecidableEq, Repr

end Scanout
