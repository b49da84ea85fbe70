import Scanout.Proofs.Allocation.Allocate
import Scanout.Proofs.Device.Change

namespace Scanout

variable {σ : Type}

namespace Layer

def worn (l : Layer) : OutputId × List (String × UInt64) :=
  (l.output, l.properties.entries.map fun e => (e.name, e.value))

theorem worn_markClean (l : Layer) : l.markClean.worn = l.worn := by
  simp [worn, markClean, Property.Bag.markClean]

end Layer

namespace Plane

/-- What is staged for a layer depends on what it wears, and on nothing else of it. -/
theorem layerWrites_congr (p : Plane) {l l' : Layer} (h : l'.worn = l.worn) (crtc : UInt32) :
    p.layerWrites l' crtc = p.layerWrites l crtc := by
  have hpairs : l'.properties.entries.map (fun e => (e.name, e.value)) =
      l.properties.entries.map fun e => (e.name, e.value) := congrArg Prod.snd h
  have hflat : ∀ es : List Property.Entry, es.flatMap p.entryWrites =
      (es.map fun e => (e.name, e.value)).flatMap fun x => p.entryWrites ⟨x.1, x.2, 0⟩ := by
    intro es
    rw [List.flatMap_map]
    rfl
  rw [layerWrites, layerWrites, hflat, hflat, hpairs]

/-- So does the question whether a plane takes it. -/
theorem takes_congr (p : Plane) {l l' : Layer} (h : l'.worn = l.worn) (hl : p.Takes l) :
    p.Takes l' := by
  refine ⟨hl.1, fun e he hname => ?_⟩
  have hpairs : l'.properties.entries.map (fun e => (e.name, e.value)) =
      l.properties.entries.map fun e => (e.name, e.value) := congrArg Prod.snd h
  have hmem : (e.name, e.value) ∈ l'.properties.entries.map fun e => (e.name, e.value) :=
    List.mem_map_of_mem he
  rw [hpairs] at hmem
  -- The entry of the same name and value decides for both.
  obtain ⟨e', he', heq⟩ := List.mem_map.mp hmem
  obtain ⟨hn, hv⟩ := Prod.mk.inj heq
  rw [← hn, ← hv]
  exact hl.2 e' he' (hn ▸ hname)

section Bare

variable {p p' : Plane} (h : p'.bare = p.bare)
include h

theorem id_of_bare : p'.id = p.id := (congrArg Plane.id h :)

theorem writeOf?_of_bare (name : String) (value : UInt64) :
    p'.writeOf? name value = p.writeOf? name value := by
  have hdescriptors : p'.descriptors = p.descriptors := (congrArg Plane.descriptors h :)
  simp only [writeOf?, descriptor?, hdescriptors, id_of_bare h]

theorem disabledWrites_of_bare : p'.disabledWrites = p.disabledWrites := by
  simp only [disabledWrites, writeOf?_of_bare h]

theorem stops_of_bare (hp : p.Stops) : p'.Stops := by
  have hdescriptors : p'.descriptors = p.descriptors := (congrArg Plane.descriptors h :)
  simpa only [Stops, descriptor?, hdescriptors] using hp

theorem takes_of_bare {l : Layer} (hl : p.Takes l) : p'.Takes l := by
  have hdescriptors : p'.descriptors = p.descriptors := (congrArg Plane.descriptors h :)
  simpa only [Takes, admits, descriptor?, hdescriptors] using hl

theorem layerWrites_of_bare (l : Layer) (crtc : UInt32) :
    p'.layerWrites l crtc = p.layerWrites l crtc := by
  have hentry : p'.entryWrites = p.entryWrites := by
    funext e
    simp only [entryWrites, writeOf?_of_bare h]
  simp only [layerWrites, writeOf?_of_bare h, hentry]

end Bare

end Plane

namespace Device

def planeWrites (d : Device σ) (p : Plane) : List Write :=
  match p.layer with
  | none => p.disabledWrites
  | some id =>
    match d.layer? id with
    | none => []
    | some l =>
      match d.output? l.output with
      | none => []
      | some out => p.layerWrites l out.crtc

def Suits (d : Device σ) (p : Plane) : Prop :=
  match p.layer with
  | none => p.Stops
  | some id => ∃ l, d.layer? id = some l ∧ p.Takes l

theorem object_planeWrites (d : Device σ) (p : Plane) : ∀ w ∈ d.planeWrites p, w.object = p.id := by
  intro w hw
  unfold planeWrites at hw
  split at hw
  · exact p.object_disabledWrites w hw
  · split at hw
    · cases hw
    · split at hw
      · cases hw
      · exact p.object_layerWrites _ _ w hw

open Staging in
/-- Staging a plane adds the writes of the plane, provided that it suits the device. -/
theorem adds_stagePlane (d : Device σ) (p : Plane) :
    Adds (d.stagePlane p) (d.planeWrites p) (d.Suits p) := by
  unfold stagePlane planeWrites Suits
  -- The plane is empty, or its layer and the output of the layer are live.
  cases hplane : p.layer with
  | none => exact p.adds_stageDisabled.adaptExcept _
  | some id =>
    simp only
    cases hl : d.layer? id with
    | none => exact adds_throw _
    | some l =>
      simp only
      cases d.output? l.output with
      | none => exact adds_throw _
      | some out =>
        exact ((p.adds_stageLayer l out.crtc).mono fun h => ⟨l, rfl, h⟩).adaptExcept _

open Staging in
/-- Staging the links adds the writes for all planes. -/
theorem adds_stageCurrent (d : Device σ) :
    Adds d.stageCurrent (d.planes.flatMap d.planeWrites) (∀ p ∈ d.planes, d.Suits p) :=
  (adds_forM fun p _ => d.adds_stagePlane p).allOrNothing

open Staging in
theorem adds_disables (d : Device σ) :
    Adds (Allocation.disables d)
      ((d.planes.filter fun p => p.layer.isNone).flatMap Plane.disabledWrites)
      (∀ p ∈ d.planes.filter fun p => p.layer.isNone, p.Stops) :=
  (adds_forM fun p _ => p.adds_stageDisabled).adaptExcept _

/-- A plane fails to be staged because it lacks what it takes to switch it off, or because it does not take
its layer. Only in the second case the failure looks like an answer of the driver. -/
theorem stagePlane_fails (d : Device σ) (p : Plane) (r : Request) :
    Ensures (d.stagePlane p) r (fun _ _ => True) (fun failure _ => ∀ e, failure = .error (.kernel e) →
      e = .einval ∧ ∃ id l, p.layer = some id ∧ d.layer? id = some l ∧ ¬ p.Takes l) := by
  unfold stagePlane
  split
  -- Switching off fails for a missing property, which is no answer of the driver.
  · rw [ensures_adaptExcept]
    refine (p.stageDisabled_fails r).mono (fun _ _ _ => trivial) ?_
    rintro _ _ ⟨name, rfl⟩ e he
    cases he
  · rename_i id hlayer
    split
    -- A stale handle is a fault of the caller.
    · intro e he
      cases he
    · rename_i l hl
      split
      · intro e he
        cases he
      · rename_i out _
        rw [ensures_adaptExcept]
        refine (p.stageLayer_fails l out.crtc r).mono (fun _ _ _ => trivial) ?_
        rintro _ _ hrefused e he
        cases he
        exact ⟨rfl, id, l, hlayer, hl, hrefused⟩

theorem stageCurrent_fails (d : Device σ) (r : Request) :
    Ensures d.stageCurrent r (fun _ _ => True) (fun failure _ => ∀ e, failure = .error (.kernel e) →
      e = .einval ∧ ∃ p ∈ d.planes, ∃ id l, p.layer = some id ∧ d.layer? id = some l ∧ ¬ p.Takes l) := by
  rw [stageCurrent, Staging.ensures_allOrNothing]
  refine ensures_forM (I := fun _ => True) (fun p hp r _ => ?_) trivial
  refine (d.stagePlane_fails p r).mono (fun _ _ h => h) fun failure _ h e he => ?_
  obtain ⟨heinval, id, l, hmisfit⟩ := h e he
  exact ⟨heinval, p, hp, id, l, hmisfit⟩

/-- The links fail to be staged only if some plane does not suit them. -/
theorem stageCurrent_unsuited {d : Device σ} (hd : d.WellFormed) (r : Request) :
    Ensures d.stageCurrent r (fun _ _ => True) (fun _ _ => ∃ p ∈ d.planes, ¬ d.Suits p) := by
  rw [stageCurrent, Staging.ensures_allOrNothing]
  refine ensures_forM (I := fun _ => True) (fun p hp r _ => ?_) trivial
  have hunsuited : Ensures (d.stagePlane p) r (fun _ _ => True) (fun _ _ => ¬ d.Suits p) := by
    unfold stagePlane Suits
    -- On a well-formed device neither the layer nor its output can be missing.
    cases hlayer : p.layer with
    | none =>
      rw [ensures_adaptExcept]
      exact p.stageDisabled_unstopped r
    | some id =>
      obtain ⟨l, hl, -⟩ := layer_of_plane hd.wiring hp hlayer
      obtain ⟨out, hout, -⟩ := output_of_layer hd hl
      simp only [hl, hout, Option.some.injEq, exists_eq_left']
      rw [ensures_adaptExcept]
      exact p.stageLayer_fails l out.crtc r
  exact hunsuited.mono (fun _ _ h => h) fun _ _ h => ⟨p, hp, h⟩

theorem disables_fails (d : Device σ) (r : Request) :
    Ensures (Allocation.disables d) r (fun _ _ => True)
      (fun failure _ => ∃ q name, failure = .error (.missingPlaneProperty q name)) := by
  rw [Allocation.disables, ensures_adaptExcept]
  refine ensures_forM (I := fun _ => True) (fun p _ r _ => ?_) trivial
  refine (p.stageDisabled_fails r).mono (fun _ _ h => h) ?_
  rintro _ _ ⟨name, rfl⟩
  exact ⟨p.id, name, rfl⟩

/-- Edits that leave on each layer what it wears leave the writes of every plane. -/
theorem planeWrites_of_changes [Kernel σ] {T : σ → σ → Prop} {E : LayerId → Layer → Layer → Prop}
    {d d' : Device σ} (hd' : d'.WellFormed) (h : Changes T E d d')
    (hE : ∀ id l l', E id l l' → l'.worn = l.worn) {p : Plane} (hp : p ∈ d'.planes) :
    d'.planeWrites p = d.planeWrites p ∧ (d'.Suits p ↔ d.Suits p) := by
  unfold planeWrites Suits
  cases hlayer : p.layer with
  | none => exact ⟨rfl, Iff.rfl⟩
  | some id =>
    -- The layer and its output were there before, with the same pipe.
    obtain ⟨l', hl', -⟩ := layer_of_plane hd'.wiring hp hlayer
    obtain ⟨out', hout', -⟩ := output_of_layer hd' hl'
    have hworn := h.mono (fun _ _ hT => hT) hE
    obtain ⟨l, hl, hsame⟩ := hworn.exists_layer (fun _ _ => rfl) (fun h h' => h'.trans h) hl'
    obtain ⟨out, hout, hpipe⟩ := h.exists_output hout'
    have houtput : l'.output = l.output := congrArg Prod.fst hsame
    have hcrtc : out'.crtc = out.crtc := congrArg Prod.fst hpipe
    rw [houtput] at hout hout'
    simp only [hl', hl, houtput, hout', hout, hcrtc, Option.some.injEq, exists_eq_left']
    exact ⟨p.layerWrites_congr hsame out.crtc, p.takes_congr hsame.symm, p.takes_congr hsame⟩

theorem flatMap_planeWrites_of_changes [Kernel σ] {T : σ → σ → Prop}
    {E : LayerId → Layer → Layer → Prop} {d d' : Device σ} (hd' : d'.WellFormed)
    (h : Changes T E d d') (hE : ∀ id l l', E id l l' → l'.worn = l.worn)
    (hplanes : d'.planes = d.planes) :
    d'.planes.flatMap d'.planeWrites = d.planes.flatMap d.planeWrites := by
  rw [← hplanes]
  exact List.flatMap_congr fun p hp => (planeWrites_of_changes hd' h hE hp).1

end Device

end Scanout
