import Scanout.Plane.Staging
import Scanout.Proofs.Outcome

namespace Scanout

variable {ε : Type}

namespace Request

def Begins (r r' : Request) : Prop := ∃ writes, r' = r.append writes

instance : IsPreorder Request Begins where
  refl r := ⟨[], by simp [append]⟩
  trans := by
    rintro r _ _ ⟨ws, rfl⟩ ⟨ws', rfl⟩
    exact ⟨ws ++ ws', by simp [append]⟩

theorem Begins.antisymm {r r' : Request} (h : r.Begins r') (h' : r'.Begins r) : r' = r := by
  obtain ⟨ws, rfl⟩ := h
  obtain ⟨ws', heq⟩ := h'
  have hwrites : r.writes = r.writes ++ (ws ++ ws') := by
    simpa [append] using congrArg Request.writes heq
  obtain ⟨rfl, -⟩ := List.append_eq_nil_iff.mp (List.self_eq_append_right.mp hwrites)
  simp [append]

theorem Begins.rollback {r r' : Request} (h : Begins r r') : r'.rollback r.cursor = r := by
  obtain ⟨ws, rfl⟩ := h
  exact rollback_cursor_append r ws

end Request

namespace Staging

open Request

theorem ensures_allOrNothing (x : Staging ε Unit) {r : Request} {Q : Unit → Request → Prop}
    {E : ε → Request → Prop} :
    Ensures (allOrNothing x) r Q E ↔ Ensures x r Q fun e r' => E e (r'.rollback r.cursor) := by
  unfold Ensures allOrNothing
  cases x r <;> rfl

/-- Putting the request back keeps the error. -/
theorem allOrNothing_eq_error {x : Staging ε Unit} {e : ε} {r r' : Request}
    (h : allOrNothing x r = .error e r') : ∃ r₁, x r = .error e r₁ := by
  unfold allOrNothing at h
  cases hx : x r with
  | ok _ r₁ =>
    rw [hx] at h
    cases h
  | error e' r₁ =>
    rw [hx] at h
    cases h
    exact ⟨r₁, rfl⟩

/-- A computation that fails has taken back what it wrote. -/
theorem allOrNothing_spec {x : Staging ε Unit} (hx : Stays Begins x) (r : Request) :
    Ensures (allOrNothing x) r (fun _ => Begins r) (fun _ r' => r' = r) :=
  (ensures_allOrNothing x).mpr ((hx r).mono (fun _ _ h => h) fun _ _ h => h.rollback)

theorem begins_adaptExcept {ε' : Type} {x : Staging ε Unit} (hx : Stays Begins x) (f : ε → ε') :
    Stays Begins (EStateM.adaptExcept f x : Staging ε' Unit) :=
  fun r => (ensures_adaptExcept x f).mpr (hx r)

end Staging

namespace Plane

open Request

variable (p : Plane)

theorem begins_write (d : Property.Descriptor) (value : UInt64) :
    Stays Begins (p.write (ε := ε) d value) := fun _ => ⟨[⟨p.id, d.id, value⟩], rfl⟩

/-- Staging one property only ever adds writes. -/
theorem begins_stageEntry (e : Property.Entry) : Stays Begins (p.stageEntry e) := by
  unfold stageEntry
  split
  -- The plane has the property, or its value must be harmless without.
  · exact stays_pure _
  · split
    · split
      · exact p.begins_write _ _
      · exact stays_throw _
    · split
      · exact stays_pure _
      · exact stays_throw _

theorem begins_stageDisabled : Stays Begins p.stageDisabled := by
  have hzero : ∀ w : WellKnown, Stays Begins (p.stageZero w) := by
    intro w
    unfold stageZero
    split
    · exact p.begins_write _ _
    · exact stays_throw _
  exact (hzero .fbId).bind fun _ => hzero .crtcId

/-- A layer is staged completely or not at all. -/
theorem stageLayer_spec (l : Layer) (crtc : UInt32) (r : Request) :
    Ensures (p.stageLayer l crtc) r (fun _ => Begins r) (fun _ r' => r' = r) := by
  refine Staging.allOrNothing_spec ?_ r
  simp only
  split
  · exact (p.begins_write _ _).bind fun _ => stays_forM fun e _ => p.begins_stageEntry e
  · exact (stays_throw _).bind fun _ => stays_forM fun e _ => p.begins_stageEntry e

end Plane

end Scanout
