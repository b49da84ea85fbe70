import Scanout.Proofs.Plane.Writes
import Scanout.Proofs.Property.Bag
import Scanout.Proofs.Property.Descriptor

namespace Scanout
namespace Plane

open Staging

variable (p : Plane)

/-- The descriptor is the one that counts for the name: the last of them if the name is well known,
the first otherwise. -/
def Has (name : String) (d : Property.Descriptor) : Prop :=
  d.name = name ∧ ∃ before after, p.descriptors = before ++ d :: after ∧
    ∀ d' ∈ if (WellKnown.ofName? name).isSome then after else before, d'.name ≠ name

def Lacks (name : String) : Prop := ∀ d ∈ p.descriptors, d.name ≠ name

theorem descriptor?_eq_some_iff (name : String) (d : Property.Descriptor) :
    p.descriptor? name = some d ↔ p.Has name d := by
  rw [descriptor?, Has]
  cases hknown : WellKnown.ofName? name with
  | none => simp [List.find?_eq_some_iff_append]
  | some w =>
    -- The first in the reversed list is the last.
    simp only [List.find?_eq_some_iff_append, Option.isSome_some, if_true, beq_iff_eq]
    refine and_congr_right fun _ => ?_
    constructor
    · rintro ⟨after, before, hsplit, hafter⟩
      refine ⟨before.reverse, after.reverse, ?_, fun d' hd' => ?_⟩
      · rw [← List.reverse_reverse p.descriptors, hsplit]
        simp
      · simpa using hafter d' (List.mem_reverse.mp hd')
    · rintro ⟨before, after, hsplit, hafter⟩
      refine ⟨after.reverse, before.reverse, by simp [hsplit], fun d' hd' => ?_⟩
      simpa using hafter d' (List.mem_reverse.mp hd')

theorem descriptor?_eq_none_iff (name : String) : p.descriptor? name = none ↔ p.Lacks name := by
  rw [descriptor?, Lacks]
  cases WellKnown.ofName? name <;> simp

section

variable {p} {name : String} {d : Property.Descriptor}

theorem has_of_found (h : p.descriptor? name = some d) : p.Has name d :=
  (p.descriptor?_eq_some_iff name d).mp h

theorem lacks_of_not_found (h : p.descriptor? name = none) : p.Lacks name :=
  (p.descriptor?_eq_none_iff name).mp h

theorem Has.eq {d' : Property.Descriptor} (h : p.Has name d) (h' : p.Has name d') : d = d' := by
  rw [← descriptor?_eq_some_iff] at h h'
  exact Option.some.inj (h.symm.trans h')

theorem Has.not_lacks (h : p.Has name d) : ¬ p.Lacks name := by
  rw [← descriptor?_eq_some_iff] at h
  rw [← descriptor?_eq_none_iff, h]
  nofun

end

/-- The plane can show the property as the layer has it, or does as well without it. -/
def Fits (e : Property.Entry) : Prop :=
  e.name = WellKnown.zpos.name ∨
    (∃ d, p.Has e.name d ∧ d.immutable = false ∧ d.kind.Declares e.value) ∨
    p.Lacks e.name ∧ isHarmlessWithout e.name e.value = true

/-- The property keeps the layer off the plane. -/
inductive Offends (e : Property.Entry) : Incompatibility → Prop where
  | refused {d : Property.Descriptor} (position : e.name ≠ WellKnown.zpos.name)
    (has : p.Has e.name d) (refuses : ¬ (d.immutable = false ∧ d.kind.Declares e.value)) :
    Offends e .invalidValue
  | lacked (position : e.name ≠ WellKnown.zpos.name) (lacks : p.Lacks e.name)
    (matters : isHarmlessWithout e.name e.value = false) : Offends e .missingProperty

variable {p} in
theorem fits_of_admits {e : Property.Entry}
    (h : e.name ≠ WellKnown.zpos.name → p.admits e.name e.value = true) : p.Fits e := by
  by_cases hname : e.name = WellKnown.zpos.name
  · exact .inl hname
  · have hadmits := h hname
    rw [admits] at hadmits
    -- Whether the plane has the property decides what must be true of the value.
    cases hd : p.descriptor? e.name with
    | none =>
      rw [hd] at hadmits
      exact .inr (.inr ⟨lacks_of_not_found hd, hadmits⟩)
    | some d =>
      rw [hd] at hadmits
      exact .inr (.inl ⟨d, has_of_found hd, (d.accepts_iff _).mp hadmits⟩)

variable {p} in
/-- A property that fits is not to blame for anything. -/
theorem Fits.not_offends {e : Property.Entry} (h : p.Fits e) (reason : Incompatibility) :
    ¬ p.Offends e reason := by
  rintro (⟨position, has, refuses⟩ | ⟨position, lacks, matters⟩)
  -- A plane cannot both have a property and lack it.
  · rcases h with hname | ⟨d, hd, haccepted⟩ | ⟨hlacks, -⟩
    · exact position hname
    · exact refuses (hd.eq has ▸ haccepted)
    · exact has.not_lacks hlacks
  · rcases h with hname | ⟨d, hd, -⟩ | ⟨-, hharmless⟩
    · exact position hname
    · exact hd.not_lacks lacks
    · rw [hharmless] at matters
      cases matters

def isWritten (e : Property.Entry) : Bool :=
  e.name != WellKnown.zpos.name && (p.descriptor? e.name).isSome

def Sets (e : Property.Entry) (w : Write) : Prop :=
  ∃ d, p.Has e.name d ∧ w = ⟨p.id, d.id, e.value⟩

/-- There is one write for each property that is written, in the same order. -/
theorem forall₂_sets (entries : List Property.Entry) :
    List.Forall₂ p.Sets (entries.filter p.isWritten) (entries.flatMap p.entryWrites) := by
  -- A property adds one element to each of the two lists, or none to both.
  induction entries with
  | nil => exact .nil
  | cons e entries ih =>
    rw [List.filter_cons, List.flatMap_cons, entryWrites, isWritten, writeOf?]
    -- The position is never written as a property.
    by_cases hname : e.name = WellKnown.zpos.name
    · simpa [hname] using ih
    · cases hd : p.descriptor? e.name with
      | none => simpa [hname] using ih
      | some d =>
        have hsets : p.Sets e ⟨p.id, d.id, e.value⟩ := ⟨d, has_of_found hd, rfl⟩
        simpa [hname] using ⟨hsets, ih⟩

theorem stageEntry_eq_error {e : Property.Entry} {reason : Incompatibility} {r r' : Request}
    (h : p.stageEntry e r = .error reason r') : p.Offends e reason := by
  -- Two of the branches fail, one for each way to offend.
  rw [stageEntry] at h
  by_cases hname : e.name = WellKnown.zpos.name
  · rw [if_pos hname] at h
    cases h
  · rw [if_neg hname] at h
    cases hd : p.descriptor? e.name with
    | none =>
      rw [hd] at h
      cases hharmless : isHarmlessWithout e.name e.value with
      | true =>
        rw [hharmless] at h
        cases h
      | false =>
        rw [hharmless] at h
        cases h
        exact .lacked hname (lacks_of_not_found hd) hharmless
    | some d =>
      rw [hd] at h
      cases haccepts : d.accepts e.value with
      | true =>
        simp only [haccepts] at h
        cases h
      | false =>
        simp only [haccepts] at h
        cases h
        refine .refused hname (has_of_found hd) fun haccepted => ?_
        rw [(d.accepts_iff _).mpr haccepted] at haccepts
        cases haccepts

/-- The first property that does not fit is what the entries fail with. -/
theorem stageEntries_eq_error {entries : List Property.Entry} {reason : Incompatibility}
    {r r' : Request} (h : p.stageEntries entries r = .error reason r') :
    ∃ before e after, entries = before ++ e :: after ∧ (∀ e' ∈ before, p.Fits e') ∧
      p.Offends e reason := by
  obtain ⟨before, e, after, r₁, rfl, hbefore, he⟩ := forM_eq_error h
  -- The properties before it were staged, so they fit.
  have hstaged := adds_forM (fun e (_ : e ∈ before) => p.adds_stageEntry e) r r₁ hbefore
  exact ⟨before, e, after, rfl, fun e' he' => fits_of_admits (hstaged.2 e' he'),
    p.stageEntry_eq_error he⟩

/-- A failed staging has a plane without an output property, or a first property at fault. -/
theorem stageLayer_eq_error {l : Layer} {crtc : UInt32} {reason : Incompatibility} {r r' : Request}
    (h : p.stageLayer l crtc r = .error reason r') :
    p.Lacks WellKnown.crtcId.name ∧ reason = .missingProperty ∨
      (∃ d, p.Has WellKnown.crtcId.name d) ∧ ∃ before e after,
        l.properties.entries = before ++ e :: after ∧ (∀ e' ∈ before, p.Fits e') ∧
          p.Offends e reason := by
  -- Undoing the writes does not change the reason.
  obtain ⟨r₁, hrun⟩ := allOrNothing_eq_error h
  cases hd : p.descriptor? WellKnown.crtcId.name with
  | none =>
    rw [hd] at hrun
    cases hrun
    exact .inl ⟨lacks_of_not_found hd, rfl⟩
  | some d =>
    rw [hd] at hrun
    exact .inr ⟨⟨d, has_of_found hd⟩, p.stageEntries_eq_error hrun⟩

/-- Staging a layer succeeds exactly if the plane has a pipe to set and every property of the layer
fits. The pipe is written then, and after it the properties that the plane has, in their order. Otherwise
the request stays as it is, and the first property that does not fit is to blame. -/
theorem stageLayer_exact (l : Layer) (crtc : UInt32) (r : Request) :
    ((∃ r', p.stageLayer l crtc r = .ok () r') ↔
        (∃ d, p.Has WellKnown.crtcId.name d) ∧ ∀ e ∈ l.properties.entries, p.Fits e) ∧
      (∀ r', p.stageLayer l crtc r = .ok () r' →
        ∃ d ws, p.Has WellKnown.crtcId.name d ∧
          r' = r.append (⟨p.id, d.id, crtc.toUInt64⟩ :: ws) ∧
          List.Forall₂ p.Sets (l.properties.entries.filter p.isWritten) ws) ∧
      ∀ reason r', p.stageLayer l crtc r = .error reason r' → r' = r ∧
        (p.Lacks WellKnown.crtcId.name ∧ reason = .missingProperty ∨
          (∃ d, p.Has WellKnown.crtcId.name d) ∧ ∃ before e after,
            l.properties.entries = before ++ e :: after ∧ (∀ e' ∈ before, p.Fits e') ∧
              p.Offends e reason) := by
  refine ⟨⟨?_, ?_⟩, ?_, ?_⟩
  -- A layer is staged when every property of it fits.
  · rintro ⟨r', hok⟩
    obtain ⟨-, hcrtc, hadmits⟩ := p.adds_stageLayer l crtc r r' hok
    obtain ⟨d, hd⟩ := Option.isSome_iff_exists.mp hcrtc
    exact ⟨⟨d, has_of_found hd⟩, fun e he => fits_of_admits (hadmits e he)⟩
  · rintro ⟨⟨d, hd⟩, hfits⟩
    -- A failure would have to blame a property, and there is none to blame.
    cases hrun : p.stageLayer l crtc r with
    | ok _ r' => exact ⟨r', rfl⟩
    | error reason r' =>
      rcases p.stageLayer_eq_error hrun with ⟨hlacks, -⟩ | ⟨-, before, e, after, hsplit, -, hoffends⟩
      · exact absurd hlacks hd.not_lacks
      · have he : e ∈ l.properties.entries := by
          rw [hsplit]
          exact List.mem_append_cons_self
        exact absurd hoffends ((hfits e he).not_offends reason)
  -- What was written is the output and then the properties in their order.
  · intro r' hok
    obtain ⟨rfl, hcrtc, -⟩ := p.adds_stageLayer l crtc r r' hok
    obtain ⟨d, hd⟩ := Option.isSome_iff_exists.mp hcrtc
    refine ⟨d, _, has_of_found hd, ?_, p.forall₂_sets l.properties.entries⟩
    rw [layerWrites, writeOf?, hd]
    rfl
  -- A failure leaves the request as it was.
  · intro reason r' herror
    have hunchanged := p.stageLayer_spec l crtc r
    rw [ensures_of_eq_error herror] at hunchanged
    exact ⟨hunchanged, p.stageLayer_eq_error herror⟩

/-- Two properties do not fit. The one that stands first is to blame, and the pipe is not left written. -/
example :
    let p : Plane :=
      { id := 30, kind := .overlay, zpos := 1, possibleCrtcs := 1, formats := none
        descriptors := [⟨2, "CRTC_ID", .object, false⟩, ⟨3, "alpha", .range 0 0xFFFF, false⟩] }
    let l : Layer :=
      { output := ⟨⟨0, 0⟩⟩
        properties := ⟨[⟨"zpos", 5, 0⟩, ⟨"rotation", 2, 0⟩, ⟨"alpha", 0x10000, 0⟩], .replicate _ none⟩ }
    p.stageLayer l 7 {} = .error .missingProperty {} := rfl

end Plane
end Scanout
