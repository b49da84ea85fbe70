import Mathlib.Data.List.Nodup
import Scanout.Proofs.Plane.Staging

/-! Which writes a staging that succeeds has added, and which value each property has after them. The
order of writes to different planes does not matter. -/

namespace Scanout

variable {ε ε' α : Type}

namespace Request

theorem value?_append (r : Request) (ws : List Write) (q x : UInt32) :
    (r.append ws).value? q x = (value? ⟨ws⟩ q x).or (r.value? q x) := by
  simp only [value?, append, List.reverse_append, List.find?_append, Option.map_or]

theorem value?_nil (q x : UInt32) : value? ⟨[]⟩ q x = none := rfl

theorem isSome_value?_iff (r : Request) (q x : UInt32) :
    (r.value? q x).isSome = true ↔ ∃ w ∈ r.writes, w.object = q ∧ w.property = x := by
  simp [value?]

theorem exists_last {r : Request} {q x : UInt32} (h : ∃ w ∈ r.writes, w.object = q ∧ w.property = x) :
    ∃ w ∈ r.writes, w.object = q ∧ w.property = x ∧ r.value? q x = some w.value := by
  obtain ⟨v, hv⟩ := Option.isSome_iff_exists.mp ((isSome_value?_iff r q x).mpr h)
  obtain ⟨w, hw, rfl⟩ := Option.map_eq_some_iff.mp hv
  have hkey : w.object = q ∧ w.property = x := by simpa using List.find?_some hw
  exact ⟨w, by simpa using List.mem_of_find?_eq_some hw, hkey.1, hkey.2, hv⟩

/-- Only the writes to the object itself count for its values. -/
theorem value?_eq_filter (ws : List Write) (q x : UInt32) :
    value? ⟨ws⟩ q x = value? ⟨ws.filter (·.object = q)⟩ q x := by
  simp only [value?, ← List.filter_reverse, List.find?_filter]
  congr 2
  funext w
  by_cases h : w.object = q <;> simp [h]

section FlatMap

variable {as : List α} (key : α → UInt32) {writes : α → List Write}
  (hobject : ∀ a ∈ as, ∀ w ∈ writes a, w.object = key a)
include hobject

theorem filter_flatMap_of_notMem {q : UInt32} (hq : q ∉ as.map key) :
    (as.flatMap writes).filter (·.object = q) = [] := by
  rw [List.filter_eq_nil_iff]
  intro w hw hwq
  obtain ⟨a, ha, hwa⟩ := List.mem_flatMap.mp hw
  exact hq (List.mem_map.mpr ⟨a, ha, (hobject a ha w hwa).symm.trans (of_decide_eq_true hwq)⟩)

/-- If each part writes to an object of its own, then one part is all that is written to its object. -/
theorem filter_flatMap (hnodup : (as.map key).Nodup) {a : α} (ha : a ∈ as) :
    (as.flatMap writes).filter (·.object = key a) = writes a := by
  -- The element is at one place, and its key occurs nowhere before or after.
  obtain ⟨before, after, rfl⟩ := List.append_of_mem ha
  rw [List.map_append, List.map_cons, List.nodup_middle, List.nodup_cons, List.mem_append,
    not_or] at hnodup
  obtain ⟨⟨hbefore, hafter⟩, -⟩ := hnodup
  have hself : (writes a).filter (·.object = key a) = writes a := by
    rw [List.filter_eq_self]
    exact fun w hw => decide_eq_true (hobject a ha w hw)
  -- The parts before and after it write elsewhere.
  rw [List.flatMap_append, List.flatMap_cons, List.filter_append, List.filter_append, hself,
    filter_flatMap_of_notMem key (fun b hb => hobject b (by simp [hb])) hbefore,
    filter_flatMap_of_notMem key (fun b hb => hobject b (by simp [hb])) hafter,
    List.nil_append, List.append_nil]

theorem value?_flatMap_of_notMem {q : UInt32} (hq : q ∉ as.map key) (x : UInt32) :
    value? ⟨as.flatMap writes⟩ q x = none := by
  rw [value?_eq_filter, filter_flatMap_of_notMem key hobject hq, value?_nil]

/-- If each part writes to an object of its own, then what one part writes is what counts for its
object. -/
theorem value?_flatMap (hnodup : (as.map key).Nodup) {a : α} (ha : a ∈ as) (x : UInt32) :
    value? ⟨as.flatMap writes⟩ (key a) x = value? ⟨writes a⟩ (key a) x := by
  rw [value?_eq_filter, filter_flatMap key hobject hnodup ha]

end FlatMap

end Request

namespace Staging

def Adds (x : Staging ε Unit) (ws : List Write) (P : Prop) : Prop :=
  ∀ r r', x r = .ok () r' → r' = r.append ws ∧ P

variable {x y : Staging ε Unit} {ws ws' : List Write} {P P' : Prop}

theorem adds_pure : Adds (pure () : Staging ε Unit) [] True := by
  rintro r _ ⟨⟩
  exact ⟨by simp [Request.append], trivial⟩

theorem adds_throw (e : ε) : Adds (throw e : Staging ε Unit) ws P := by
  rintro r r' ⟨⟩

theorem Adds.mono (h : Adds x ws P) (hP : P → P') : Adds x ws P' :=
  fun r r' hrun => (h r r' hrun).imp_right hP

/-- Two stagings in a row add the writes of both. -/
theorem Adds.seq (h : Adds x ws P) (h' : Adds y ws' P') :
    Adds (do x; y) (ws ++ ws') (P ∧ P') := by
  intro r r' hrun
  simp only [bind, EStateM.bind] at hrun
  cases hx : x r with
  | error e r₁ =>
    rw [hx] at hrun
    cases hrun
  | ok _ r₁ =>
    rw [hx] at hrun
    obtain ⟨rfl, hP⟩ := h r r₁ hx
    obtain ⟨rfl, hP'⟩ := h' _ r' hrun
    exact ⟨by simp [Request.append], hP, hP'⟩

/-- Staging all or nothing adds the same writes when it succeeds. -/
theorem Adds.allOrNothing (h : Adds x ws P) : Adds (allOrNothing x) ws P := by
  intro r r' hrun
  unfold Staging.allOrNothing at hrun
  cases hx : x r with
  | error e r₁ =>
    rw [hx] at hrun
    cases hrun
  | ok _ r₁ =>
    rw [hx] at hrun
    cases hrun
    exact h r _ hx

/-- Another error type changes nothing about what a success adds. -/
theorem Adds.adaptExcept (h : Adds x ws P) (f : ε → ε') :
    Adds (EStateM.adaptExcept f x : Staging ε' Unit) ws P := by
  intro r r' hrun
  unfold EStateM.adaptExcept at hrun
  cases hx : x r with
  | error e r₁ =>
    rw [hx] at hrun
    cases hrun
  | ok _ r₁ =>
    rw [hx] at hrun
    cases hrun
    exact h r _ hx

/-- A loop adds the writes of its turns one after the other. -/
theorem adds_forM {f : α → Staging ε Unit} {writes : α → List Write} {P : α → Prop} {as : List α}
    (h : ∀ a ∈ as, Adds (f a) (writes a) (P a)) :
    Adds (as.forM f) (as.flatMap writes) (∀ a ∈ as, P a) := by
  induction as with
  | nil => exact adds_pure.mono fun _ _ ha => by cases ha
  | cons a as ih =>
    have hfirst := h a List.mem_cons_self
    have hrest := ih fun b hb => h b (List.mem_cons_of_mem a hb)
    refine (hfirst.seq hrest).mono ?_
    rintro ⟨ha, has⟩ b hb
    rcases List.mem_cons.mp hb with rfl | hb
    · exact ha
    · exact has b hb

end Staging

namespace Plane

open Staging

variable (p : Plane)

def writeOf? (name : String) (value : UInt64) : Option Write :=
  (p.descriptor? name).map fun d => ⟨p.id, d.id, value⟩

def disabledWrites : List Write :=
  [WellKnown.fbId, .crtcId].flatMap fun w => (p.writeOf? w.name 0).toList

def entryWrites (e : Property.Entry) : List Write :=
  if e.name = WellKnown.zpos.name then [] else (p.writeOf? e.name e.value).toList

def layerWrites (l : Layer) (crtc : UInt32) : List Write :=
  (p.writeOf? WellKnown.crtcId.name crtc.toUInt64).toList ++
    l.properties.entries.flatMap p.entryWrites

def admits (name : String) (value : UInt64) : Bool :=
  (p.descriptor? name).elim (isHarmlessWithout name value) (·.accepts value)

def Takes (l : Layer) : Prop :=
  (p.descriptor? WellKnown.crtcId.name).isSome ∧ ∀ e ∈ l.properties.entries,
    e.name ≠ WellKnown.zpos.name → p.admits e.name e.value = true

instance (l : Layer) : Decidable (p.Takes l) :=
  inferInstanceAs (Decidable (_ ∧ _))

def Stops : Prop := ∀ w ∈ [WellKnown.fbId, .crtcId], (p.descriptor? w.name).isSome

variable {p} in
theorem descriptor?_spec {name : String} {d : Property.Descriptor} (h : p.descriptor? name = some d) :
    d ∈ p.descriptors ∧ d.name = name := by
  unfold descriptor? at h
  split at h
  · exact ⟨by simpa using List.mem_of_find?_eq_some h, by simpa using List.find?_some h⟩
  · exact ⟨List.mem_of_find?_eq_some h, by simpa using List.find?_some h⟩

/-- What the plane admits it has, unless that does no harm. -/
theorem isSome_or_of_admits {name : String} {value : UInt64} (h : p.admits name value = true) :
    (p.descriptor? name).isSome = true ∨ isHarmlessWithout name value = true := by
  unfold admits at h
  cases hd : p.descriptor? name with
  | none => exact .inr (by rwa [hd] at h)
  | some d => exact .inl rfl

theorem object_writeOf? {name : String} {value : UInt64} {w : Write}
    (h : p.writeOf? name value = some w) : w.object = p.id := by
  obtain ⟨d, -, rfl⟩ := Option.map_eq_some_iff.mp h
  rfl

theorem object_disabledWrites : ∀ w ∈ p.disabledWrites, w.object = p.id := by
  intro w hw
  obtain ⟨property, -, hw⟩ := List.mem_flatMap.mp hw
  exact p.object_writeOf? (Option.mem_toList.mp hw)

/-- Every write made for a layer on a plane is to that plane. -/
theorem object_layerWrites (l : Layer) (crtc : UInt32) :
    ∀ w ∈ p.layerWrites l crtc, w.object = p.id := by
  intro w hw
  rcases List.mem_append.mp hw with hw | hw
  -- The write of the output, and then one for each property.
  · exact p.object_writeOf? (Option.mem_toList.mp hw)
  · obtain ⟨e, -, hw⟩ := List.mem_flatMap.mp hw
    unfold entryWrites at hw
    split at hw
    · cases hw
    · exact p.object_writeOf? (Option.mem_toList.mp hw)

theorem adds_write (d : Property.Descriptor) (value : UInt64) :
    Adds (p.write d value : Staging ε Unit) [⟨p.id, d.id, value⟩] True := by
  rintro r _ ⟨⟩
  exact ⟨rfl, trivial⟩

/-- Disabling a plane writes zero to its framebuffer and its output. -/
theorem adds_stageDisabled : Adds p.stageDisabled p.disabledWrites p.Stops := by
  have hzero : ∀ w : WellKnown, Adds (p.stageZero w) (p.writeOf? w.name 0).toList
      (p.descriptor? w.name).isSome := by
    intro w
    unfold stageZero writeOf?
    cases p.descriptor? w.name with
    | none => exact adds_throw _
    | some d => exact (p.adds_write d 0).mono fun _ => rfl
  -- Both properties must be there.
  have hboth := (hzero .fbId).seq (hzero .crtcId)
  have hwrites : p.disabledWrites = (p.writeOf? WellKnown.fbId.name 0).toList ++
      (p.writeOf? WellKnown.crtcId.name 0).toList := by
    simp [disabledWrites]
  rw [hwrites]
  refine hboth.mono ?_
  rintro ⟨hfb, hcrtc⟩ w hw
  rcases List.mem_cons.mp hw with rfl | hw
  · exact hfb
  · rw [List.mem_singleton.mp hw]
    exact hcrtc

theorem adds_stageEntry (e : Property.Entry) : Adds (p.stageEntry e) (p.entryWrites e)
    (e.name ≠ WellKnown.zpos.name → p.admits e.name e.value = true) := by
  unfold stageEntry entryWrites
  split
  · rename_i hzpos
    exact adds_pure.mono fun _ hne => absurd hzpos hne
  · unfold writeOf? admits
    -- Only a property that the plane lacks can be passed over.
    cases p.descriptor? e.name with
    | none =>
      simp only
      split
      · rename_i hharmless
        exact adds_pure.mono fun _ _ => hharmless
      · exact adds_throw _
    | some d =>
      simp only
      split
      · rename_i haccepts
        exact (p.adds_write d e.value).mono fun _ _ => haccepts
      · exact adds_throw _

/-- Staging a layer writes the output and the properties that the plane takes. -/
theorem adds_stageLayer (l : Layer) (crtc : UInt32) :
    Adds (p.stageLayer l crtc) (p.layerWrites l crtc) (p.Takes l) := by
  refine Adds.allOrNothing ?_
  have hentries : Adds (p.stageEntries l.properties.entries)
      (l.properties.entries.flatMap p.entryWrites) _ := adds_forM fun e _ => p.adds_stageEntry e
  -- Without an output property nothing can be staged.
  cases hd : p.descriptor? WellKnown.crtcId.name with
  | none =>
    rintro r r' ⟨⟩
  | some d =>
    have hwrites : p.layerWrites l crtc =
        [⟨p.id, d.id, crtc.toUInt64⟩] ++ l.properties.entries.flatMap p.entryWrites := by
      simp only [layerWrites, writeOf?, hd, Option.map_some, Option.toList_some]
    rw [hwrites]
    refine ((p.adds_write d crtc.toUInt64).seq hentries).mono ?_
    rintro ⟨-, htakes⟩
    exact ⟨Option.isSome_of_eq_some hd, htakes⟩

/-- Disabling a plane fails only for want of a property. -/
theorem stageDisabled_fails (r : Request) : Ensures p.stageDisabled r (fun _ _ => True)
    (fun e _ => ∃ name, e = .missingPlaneProperty p.id name) := by
  -- Either of the two properties may be the missing one.
  have hzero : ∀ (w : WellKnown) r, Ensures (p.stageZero w) r (fun _ _ => True)
      (fun e _ => ∃ name, e = .missingPlaneProperty p.id name) := by
    intro w r
    unfold stageZero
    split
    · trivial
    · exact ⟨_, rfl⟩
  rw [stageDisabled, ensures_bind]
  exact (hzero .fbId r).mono (fun _ r' _ => hzero .crtcId r') fun _ _ h => h

/-- A plane fails to be switched off only if it lacks what that takes. -/
theorem stageDisabled_unstopped (r : Request) : Ensures p.stageDisabled r (fun _ _ => True)
    (fun _ _ => ¬ p.Stops) := by
  have hzero : ∀ w ∈ [WellKnown.fbId, .crtcId], ∀ r, Ensures (p.stageZero w) r (fun _ _ => True)
      (fun _ _ => ¬ p.Stops) := by
    -- The plane has both of them, so neither write can fail.
    intro w hw r
    unfold stageZero
    cases hd : p.descriptor? w.name with
    | some d => trivial
    | none =>
      intro hstops
      have hsome := hstops w hw
      rw [hd] at hsome
      cases hsome
  rw [stageDisabled, ensures_bind]
  exact (hzero .fbId (by simp) r).mono (fun _ r' _ => hzero .crtcId (by simp) r') fun _ _ h => h

/-- A layer fails to be staged only on a plane that does not take it. -/
theorem stageLayer_fails (l : Layer) (crtc : UInt32) (r : Request) :
    Ensures (p.stageLayer l crtc) r (fun _ _ => True) fun _ _ => ¬ p.Takes l := by
  -- A property that is refused is one that the plane does not take.
  have hentry : ∀ e ∈ l.properties.entries, ∀ r, True →
      Ensures (p.stageEntry e) r (fun _ _ => True) fun _ _ => ¬ p.Takes l := by
    intro e he r _
    have hrefused : e.name ≠ WellKnown.zpos.name → p.admits e.name e.value = false → ¬ p.Takes l := by
      intro hname hfalse htakes
      rw [htakes.2 e he hname] at hfalse
      cases hfalse
    unfold admits at hrefused
    unfold stageEntry
    split
    · trivial
    · rename_i hname
      cases hd : p.descriptor? e.name with
      | none =>
        simp only
        split
        · trivial
        · rename_i hharms
          exact hrefused hname (by simpa [hd] using hharms)
      | some d =>
        simp only
        split
        · trivial
        · rename_i hrefuses
          exact hrefused hname (by simpa [hd] using hrefuses)
  -- Putting the request back on a failure keeps what is known of the error.
  rw [stageLayer, Staging.ensures_allOrNothing]
  cases hd : p.descriptor? WellKnown.crtcId.name with
  | none =>
    intro htakes
    have hsome := htakes.1
    rw [hd] at hsome
    cases hsome
  | some d => exact ensures_forM hentry trivial

end Plane

end Scanout
