import Mathlib.Data.Multiset.Filter
import Scanout.Device.Layers
import Scanout.Proofs.Device.Wiring
import Scanout.Proofs.Outcome

namespace Scanout

variable {σ : Type}

namespace Wiring

def reown (w : Wiring) (layers : LayerId → Option (OutputId × Option UInt32)) (o : OutputId)
    (members : Option (Multiset LayerId × Option LayerId)) : Wiring where
  planes := w.planes
  layers := layers
  outputs := Function.update w.outputs o members

/-- Only the ownership of one output has to be looked at again, if the links stay. -/
theorem Consistent.reown {w : Wiring} (hw : w.Consistent)
    {layers : LayerId → Option (OutputId × Option UInt32)} {o : OutputId}
    {members : Option (Multiset LayerId × Option LayerId)}
    (hlinks : ∀ id o' q, layers id = some (o', some q) ↔ w.layers id = some (o', some q))
    (hothers : ∀ o' ≠ o, ∀ id, (∃ q, layers id = some (o', q)) ↔ ∃ q, w.layers id = some (o', q))
    (howned : ∀ id, (∃ m c, members = some (m, c) ∧ id ∈ m) ↔ ∃ q, layers id = some (o, q))
    (hnodup : ∀ m c, members = some (m, c) → m.Nodup)
    (hcomposition : ∀ m id, members = some (m, some id) → id ∈ m) :
    (w.reown layers o members).Consistent where
  ids_nodup := hw.ids_nodup
  sorted := hw.sorted
  -- A link joins the same plane and layer as before.
  layer_of_plane := by
    intro p hp id hid
    obtain ⟨o', ho'⟩ := hw.layer_of_plane p hp id hid
    exact ⟨o', (hlinks id o' p.id).mpr ho'⟩
  plane_of_layer := by
    intro id o' q hl
    exact hw.plane_of_layer id o' q ((hlinks id o' q).mp hl)
  owned_iff := by
    intro o' id
    simp only [Wiring.reown]
    -- Of the output in question the members are given, of all others they are kept.
    by_cases ho : o' = o
    · subst ho
      simpa only [Function.update_self] using howned id
    · rw [hothers o' ho, Function.update_of_ne ho]
      exact hw.owned_iff o' id
  layers_nodup := by
    intro o' m c hm
    simp only [Wiring.reown] at hm
    by_cases ho : o' = o
    · subst ho
      exact hnodup m c (by simpa using hm)
    · rw [Function.update_of_ne ho] at hm
      exact hw.layers_nodup o' m c hm
  composition_mem := by
    intro o' m id hm
    simp only [Wiring.reown] at hm
    by_cases ho : o' = o
    · subst ho
      exact hcomposition m id (by simpa using hm)
    · rw [Function.update_of_ne ho] at hm
      exact hw.composition_mem o' m id hm

/-- An output may be given a new layer. It has no plane, so no link changes. -/
theorem Consistent.adopt {w : Wiring} (hw : w.Consistent) {o : OutputId} {m : Multiset LayerId}
    {c : Option LayerId} (ho : w.outputs o = some (m, c)) {id : LayerId} (hid : w.layers id = none) :
    (w.reown (Function.update w.layers id (some (o, none))) o (some (id ::ₘ m, c))).Consistent := by
  -- Were the handle listed, there would be a layer under it.
  have hfree : id ∉ m := by
    intro hmem
    obtain ⟨q, hq⟩ := (hw.owned_iff o id).mp ⟨m, c, ho, hmem⟩
    rw [hid] at hq
    cases hq
  -- The new layer has no link, belongs to `o`, and is listed once.
  refine hw.reown ?_ ?_ ?_ ?_ ?_
  · intro id' o' q
    by_cases he : id' = id <;> simp [he, hid]
  · intro o' ho' id'
    by_cases he : id' = id
    · simp [he, hid, Ne.symm ho']
    · simp [he]
  · intro id'
    by_cases he : id' = id
    · simp [he]
    · have howned := hw.owned_iff o id'
      simp only [ho] at howned
      simpa [Function.update_apply, he] using howned
  · rintro m' c' hm
    obtain ⟨rfl, -⟩ := Prod.mk.inj (Option.some.inj hm)
    exact Multiset.nodup_cons.mpr ⟨hfree, hw.layers_nodup o m c ho⟩
  · rintro m' id' hm
    obtain ⟨rfl, hc⟩ := Prod.mk.inj (Option.some.inj hm)
    exact Multiset.mem_cons_of_mem (hw.composition_mem o m id' (by rw [ho, hc]))

end Wiring

def Output.without (out : Output) (id : LayerId) : Output :=
  { out with
    compositionLayer := if out.compositionLayer = some id then none else out.compositionLayer
    layers := out.layers.filter (· ≠ id)
    layersChanged := true }

namespace Device

section Rules

variable {d : Device σ} {E : Failure → Device σ → Prop}

@[simp]
theorem ensures_onSession {α : Type} (x : SessionM σ α) {Q : α → Device σ → Prop} :
    Ensures (onSession x) d Q E ↔
      Ensures x d.session (fun a session => Q a { d with session })
        (fun e session => E e { d with session }) := by
  unfold Ensures onSession
  cases x d.session <;> rfl

@[simp]
theorem ensures_fail {α : Type} (e : Error) {Q : α → Device σ → Prop} :
    Ensures (fail e : DeviceM σ α) d Q E ↔ E (.error e) d := Iff.rfl

@[simp]
theorem ensures_blame {α : Type} (f : Fault) {Q : α → Device σ → Prop} :
    Ensures (blame f : DeviceM σ α) d Q E ↔ E (.fault f) d := Iff.rfl

@[simp]
theorem ensures_output (o : OutputId) {Q : Output → Device σ → Prop} :
    Ensures (Device.output o) d Q E ↔
      (∀ out, d.output? o = some out → Q out d) ∧
        (d.output? o = none → E (.fault (.staleOutput o)) d) := by
  simp only [Device.output, ensures_bind, ensures_get]
  cases d.output? o <;> simp

@[simp]
theorem ensures_layer (id : LayerId) {Q : Layer → Device σ → Prop} :
    Ensures (Device.layer id) d Q E ↔
      (∀ l, d.layer? id = some l → Q l d) ∧ (d.layer? id = none → E (.fault (.staleLayer id)) d) := by
  simp only [Device.layer, ensures_bind, ensures_get]
  cases d.layer? id <;> simp

@[simp]
theorem ensures_setLink_none (q : UInt32) {Q : Unit → Device σ → Prop} :
    Ensures (setLink q none) d Q E ↔ Q () (d.unlink q) := Iff.rfl

theorem ensures_query {α : Type} (ask : σ → Except Errno α) {Q : α → Device σ → Prop} :
    Ensures (query ask) d Q E ↔ (∀ a, ask d.session.kernel = .ok a → Q a d) ∧
      ∀ e, ask d.session.kernel = .error e → E (.error (.kernel e)) d := by
  simp only [query, ensures_bind, ensures_get]
  cases ask d.session.kernel <;> simp

theorem ensures_setLink_some {q : UInt32} {id : LayerId} (hid : (d.layer? id).isSome)
    {Q : Unit → Device σ → Prop} :
    Ensures (setLink q (some id)) d Q E ↔ Q () (d.link q id) := by
  simp [setLink, hid]

end Rules

section Questions

variable {R : Device σ → Device σ → Prop} [IsPreorder (Device σ) R]

theorem stays_output (o : OutputId) : Stays R (Device.output o) := by
  intro d
  rw [ensures_output]
  exact ⟨fun _ _ => refl_of R d, fun _ => refl_of R d⟩

theorem stays_layer (id : LayerId) : Stays R (Device.layer id) := by
  intro d
  rw [ensures_layer]
  exact ⟨fun _ _ => refl_of R d, fun _ => refl_of R d⟩

theorem stays_query {α : Type} (ask : σ → Except Errno α) : Stays R (query ask) := by
  intro d
  rw [ensures_query]
  exact ⟨fun _ _ => refl_of R d, fun _ _ => refl_of R d⟩

end Questions

variable {d : Device σ}

theorem wiring_withOutput (o : OutputId) (f : Output → Output) :
    (d.withOutput o f).wiring =
      d.wiring.reown d.wiring.layers o ((d.output? o).map fun out => (f out).members) := by
  simp only [wiring, Wiring.reown, Wiring.mk.injEq]
  refine ⟨rfl, rfl, funext fun o' => ?_⟩
  rw [output?_withOutput]
  -- Only the output that was edited may have other members.
  by_cases ho : o' = o
  · subst ho
    simp [Function.comp_def]
  · simp [ho]

/-- An edit of an output that leaves its members alone does not show in the wiring. -/
theorem wiring_withOutput_of_members {o : OutputId} {f : Output → Output}
    (hf : ∀ out, d.output? o = some out → (f out).members = out.members) :
    (d.withOutput o f).wiring = d.wiring := by
  rw [wiring_withOutput]
  have hmembers : ((d.output? o).map fun out => (f out).members) = d.wiring.outputs o :=
    Option.map_congr hf
  rw [hmembers, Wiring.reown, Function.update_eq_self]

/-- An edit of a layer that leaves its place alone does not show in the wiring. -/
theorem wiring_withLayer_of_place {id : LayerId} {f : Layer → Layer}
    (hf : ∀ l, d.layer? id = some l → (f l).place = l.place) :
    (d.withLayer id f).wiring = d.wiring := by
  simp only [wiring, Wiring.mk.injEq]
  refine ⟨rfl, funext fun id' => ?_, rfl⟩
  rw [layer?_withLayer]
  -- The edited layer has kept its place.
  by_cases hid : id' = id
  · subst hid
    rw [if_pos rfl, Option.map_map]
    exact Option.map_congr hf
  · rw [if_neg hid]

/-- A device with the same wiring is as well-formed, if its storage is. -/
theorem WellFormed.of_wiring {d' : Device σ} (hd : d.WellFormed) (hw : d'.wiring = d.wiring)
    (hl : d'.layers.WellFormed) (ho : d'.outputs.WellFormed) : d'.WellFormed :=
  ⟨by rw [hw]; exact hd.wiring, hl, ho⟩

def drop (d : Device σ) (o : OutputId) (id : LayerId) : Device σ :=
  { d with layers := d.layers.remove id.toHandle }.withOutput o (·.without id)

def LayersChanged (d : Device σ) (o : OutputId) : Prop :=
  ∃ out, d.output? o = some out ∧ out.layersChanged = true

theorem layersChanged_withOutput {o o' : OutputId} {f : Output → Output}
    (hf : ∀ out, out.layersChanged = true → (f out).layersChanged = true)
    (hd : d.LayersChanged o') : (d.withOutput o f).LayersChanged o' := by
  obtain ⟨out, hout, hchanged⟩ := hd
  by_cases ho : o' = o
  · exact ⟨f out, by rw [output?_withOutput, if_pos ho, hout, Option.map_some], hf out hchanged⟩
  · exact ⟨out, by rw [output?_withOutput, if_neg ho, hout], hchanged⟩

section Lifetimes

variable (hd : d.WellFormed)
include hd

theorem not_owned_of_stale {o : OutputId} (ho : d.output? o = none) (id : LayerId) :
    ¬ ∃ q, d.wiring.layers id = some (o, q) := by
  rw [← hd.wiring.owned_iff o id]
  simp [wiring, ho]

theorem output_of_layer {id : LayerId} {l : Layer} (hl : d.layer? id = some l) :
    ∃ out, d.output? l.output = some out ∧ id ∈ out.layers := by
  have howned := (hd.wiring.owned_iff l.output id).mpr ⟨l.plane, by simp [wiring, hl, Layer.place]⟩
  obtain ⟨m, c, ho, hm⟩ := howned
  obtain ⟨out, hout, he⟩ := Option.map_eq_some_iff.mp ho
  obtain ⟨rfl, -⟩ := Prod.mk.inj he
  exact ⟨out, hout, by simpa using hm⟩

theorem layer_of_output {o : OutputId} {out : Output} (ho : d.output? o = some out) {id : LayerId}
    (hid : id ∈ out.layers) : ∃ l, d.layer? id = some l ∧ l.output = o := by
  obtain ⟨q, hq⟩ := (hd.wiring.owned_iff o id).mp
    ⟨out.layers, out.compositionLayer, by simp [wiring, ho, Output.members], by simpa using hid⟩
  obtain ⟨l, hl, he⟩ := Option.map_eq_some_iff.mp hq
  exact ⟨l, hl, congrArg Prod.fst he⟩

/-- What an output lists are the layers that belong to it. -/
theorem listed_iff {o : OutputId} {out : Output} (ho : d.output? o = some out) {id : LayerId}
    {l : Layer} (hl : d.layer? id = some l) : id ∈ out.layers ↔ l.output = o := by
  constructor
  · intro hid
    obtain ⟨l', hl', hl'o⟩ := layer_of_output hd ho hid
    rwa [Option.some.inj (hl.symm.trans hl')]
  · rintro rfl
    obtain ⟨out', hout', hid⟩ := output_of_layer hd hl
    rwa [Option.some.inj (ho.symm.trans hout')]

theorem createOutput_spec (hr : d.outputs.HasRoom) (crtc : UInt32) :
    Ensures (createOutput crtc) d
      (fun o d' => d'.WellFormed ∧ d.output? o = none ∧ d'.wiring.layers = d.wiring.layers ∧
        ∀ o' ≠ o, d'.output? o' = d.output? o')
      (fun _ d' => d' = d) := by
  simp only [createOutput, ensures_bind, ensures_get]
  cases d.crtcs.findIdx? (· == crtc) with
  | none => simp
  | some i =>
    obtain ⟨h, outputs, hinsert, hwell, hfresh, hget⟩ :=
      Arena.exists_insert hd.outputs hr { crtc, crtcIndex := i }
    simp only [hinsert, ensures_bind, ensures_set, ensures_pure]
    have hstale : d.output? ⟨h⟩ = none := hfresh
    -- The new output is blank and found under the new handle.
    have houtput : ∀ o', ({ d with outputs } : Device σ).output? o' =
        if o' = ⟨h⟩ then some { crtc, crtcIndex := i } else d.output? o' := by
      intro o'
      simp only [← OutputId.toHandle_inj]
      exact hget o'.toHandle
    have hwiring : ({ d with outputs } : Device σ).wiring =
        d.wiring.reown d.wiring.layers ⟨h⟩ (some (0, none)) := by
      simp only [wiring, Wiring.reown, Wiring.mk.injEq]
      refine ⟨trivial, rfl, funext fun o' => ?_⟩
      simp only [houtput, Function.update_apply, apply_ite (Option.map Output.members)]
      rfl
    -- Devices are compared by their wiring, which gets one output with no layers.
    refine ⟨⟨?_, hd.layers, hwell⟩, hstale, rfl, fun o' ho' => by rw [houtput, if_neg ho']⟩
    rw [hwiring]
    -- The handle is new, so no layer belongs to it yet.
    have hnone := not_owned_of_stale hd hstale
    refine hd.wiring.reown (fun _ _ _ => Iff.rfl) (fun _ _ _ => Iff.rfl) ?_ ?_ ?_
    · intro id
      simpa using hnone id
    · simp
    · simp

/-- A new layer belongs to the given output and is on no plane. -/
theorem createLayer_spec (hr : d.layers.HasRoom) (o : OutputId) :
    Ensures (createLayer o) d
      (fun id d' => d'.WellFormed ∧ d.layer? id = none ∧
        d'.wiring.layers = Function.update d.wiring.layers id (some (o, none)) ∧
        (∃ out, d'.output? o = some out ∧ out.layersChanged = true) ∧
        ∀ o' ≠ o, d'.output? o' = d.output? o')
      (fun _ d' => d' = d) := by
  obtain ⟨h, layers, hinsert, hwell, hfresh, hget⟩ :=
    Arena.exists_insert hd.layers hr { output := o }
  simp only [createLayer, hinsert, ensures_bind, ensures_output, ensures_get, ensures_set,
    ensures_pure]
  refine ⟨fun out hout => ?_, fun _ => trivial⟩
  have hstale : d.layer? ⟨h⟩ = none := hfresh
  have hlayer : ∀ id, ({ d with layers } : Device σ).layer? id =
      if id = ⟨h⟩ then some { output := o } else d.layer? id := by
    intro id
    simp only [← LayerId.toHandle_inj]
    exact hget id.toHandle
  have hlayers : ({ d with layers } : Device σ).wiring.layers =
      Function.update d.wiring.layers ⟨h⟩ (some (o, none)) := by
    funext id
    simp only [wiring, hlayer, Function.update_apply, apply_ite (Option.map Layer.place)]
    rfl
  -- The wiring gets the layer, and the output lists it.
  have hwiring : (({ d with layers } : Device σ).withOutput o fun out =>
      { out with layers := out.layers ++ [⟨h⟩], layersChanged := true }).wiring =
        d.wiring.reown (Function.update d.wiring.layers ⟨h⟩ (some (o, none))) o
          (some (⟨h⟩ ::ₘ out.layers, out.compositionLayer)) := by
    rw [wiring_withOutput, hlayers]
    have hmembers : ((out.layers ++ [⟨h⟩] : List LayerId) : Multiset LayerId) = ⟨h⟩ ::ₘ out.layers :=
      Multiset.coe_eq_coe.mpr (List.perm_append_singleton _ _)
    have houtput : ({ d with layers } : Device σ).output? o = some out := hout
    rw [houtput, Option.map_some, Output.members, hmembers]
    rfl
  refine ⟨⟨?_, hwell, Arena.wellFormed_modify hd.outputs _ _⟩, hstale, ?_, ?_, fun o' ho' => ?_⟩
  · rw [hwiring]
    have hnone : d.wiring.layers ⟨h⟩ = none := by simp [wiring, hstale]
    have houtput : d.wiring.outputs o = some out.members := by simp [wiring, hout]
    exact hd.wiring.adopt houtput hnone
  · rw [hwiring, Wiring.reown]
  -- The output has one more layer, which counts as a change of its layers.
  · refine ⟨{ out with layers := out.layers ++ [⟨h⟩], layersChanged := true }, ?_, rfl⟩
    rw [output?_withOutput, if_pos rfl]
    exact congrArg (Option.map _) hout
  · rw [output?_withOutput, if_neg ho']
    rfl

theorem drop_spec {o : OutputId} {id : LayerId} (hid : d.wiring.layers id = some (o, none)) :
    (d.drop o id).WellFormed ∧ ∀ o', (d.drop o id).wiring.links o' = d.wiring.links o' := by
  have hlayers : (d.drop o id).wiring.layers = Function.update d.wiring.layers id none := by
    funext id'
    have hget : (d.drop o id).layer? id' = if id' = id then none else d.layer? id' := by
      simp only [← LayerId.toHandle_inj]
      exact Arena.get?_remove d.layers id.toHandle id'.toHandle
    simp only [wiring, hget, Function.update_apply, apply_ite (Option.map Layer.place)]
    rfl
  -- A layer without a plane is in no link.
  have hlinks : ∀ id' o' q, (d.drop o id).wiring.layers id' = some (o', some q) ↔
      d.wiring.layers id' = some (o', some q) := by
    intro id' o' q
    by_cases he : id' = id <;> simp [hlayers, he, hid]
  -- The output that the layer belonged to is live.
  obtain ⟨m, c, hm, -⟩ := (hd.wiring.owned_iff o id).mpr ⟨none, hid⟩
  obtain ⟨out, hout, -⟩ := Option.map_eq_some_iff.mp hm
  have hmembers : d.wiring.outputs o = some out.members := by simp [wiring, hout]
  refine ⟨⟨?_, Arena.wellFormed_remove hd.layers _, Arena.wellFormed_modify hd.outputs _ _⟩, ?_⟩
  -- It keeps all layers but this one, and its composition layer if that is another one.
  · have hwiring : (d.drop o id).wiring = d.wiring.reown (d.drop o id).wiring.layers o
        (some (out.layers.filter (· ≠ id), if out.compositionLayer = some id then none
          else out.compositionLayer)) := by
      rw [drop, wiring_withOutput]
      have houtput : ({ d with layers := d.layers.remove id.toHandle } : Device σ).output? o =
          some out := hout
      rw [houtput]
      rfl
    rw [hwiring]
    -- As for the new owner: no link changes, and the layer is listed nowhere any more.
    refine hd.wiring.reown hlinks ?_ ?_ ?_ ?_
    · intro o' ho' id'
      by_cases he : id' = id
      · simp [hlayers, he, hid, Ne.symm ho']
      · simp [hlayers, he]
    · intro id'
      by_cases he : id' = id
      · simp [hlayers, he]
      · have howned := hd.wiring.owned_iff o id'
        simp only [hmembers, Output.members] at howned
        simpa [hlayers, he] using howned
    · rintro m c hm
      obtain ⟨rfl, -⟩ := Prod.mk.inj (Option.some.inj hm)
      have hnodup : out.layers.Nodup := hd.wiring.layers_nodup o _ _ hmembers
      exact hnodup.filter _
    · rintro m id' hm
      obtain ⟨rfl, hc⟩ := Prod.mk.inj (Option.some.inj hm)
      split at hc
      · cases hc
      · rename_i hne
        have hmem : id' ∈ (out.layers : Multiset LayerId) :=
          hd.wiring.composition_mem o _ id' (by rw [hmembers, Output.members, hc])
        have he : id' ≠ id := by
          rintro rfl
          exact hne hc
        simpa [he] using hmem
  · intro o'
    ext x
    -- Links of all outputs are what they were.
    exact hlinks x.2 o' x.1

/-- What the end of a layer leaves: its output has lost it and will search anew, and no other output
notices. -/
theorem destroyLayer_spec (id : LayerId) :
    Ensures (destroyLayer id) d
      (fun _ d' => d'.WellFormed ∧ ∃ l, d.layer? id = some l ∧
        (d'.output? l.output = (d.output? l.output).map (·.without id)) ∧
        ∀ o ≠ l.output, d'.output? o = d.output? o ∧ d'.wiring.links o = d.wiring.links o)
      (fun _ d' => d' = d ∧ d.layer? id = none) := by
  simp only [destroyLayer, ensures_bind, ensures_layer]
  refine ⟨fun l hl => ?_, fun hl => by simpa using hl⟩
  obtain ⟨out, hout, -⟩ := output_of_layer hd hl
  -- Once the layer has no plane, taking it out is the same in both cases.
  have hdropped : ∀ d1 : Device σ, d1.WellFormed → d1.wiring.layers id = some (l.output, none) →
      d1.outputs = d.outputs → (∀ o ≠ l.output, d1.wiring.links o = d.wiring.links o) →
      (d1.drop l.output id).WellFormed ∧ ∃ l', d.layer? id = some l' ∧
        (d1.drop l.output id).output? l'.output = (d.output? l'.output).map (·.without id) ∧
        ∀ o ≠ l'.output, (d1.drop l.output id).output? o = d.output? o ∧
          (d1.drop l.output id).wiring.links o = d.wiring.links o := by
    intro d1 hd1 hfree houtputs hlinks
    obtain ⟨hd', hlinks'⟩ := drop_spec hd1 hfree
    have houtput : ∀ o, ({ d1 with layers := d1.layers.remove id.toHandle } : Device σ).output? o =
        d.output? o := by
      intro o
      simp only [output?, houtputs]
    refine ⟨hd', l, hl, ?_, fun o ho => ⟨?_, ?_⟩⟩
    · rw [drop, output?_withOutput, if_pos rfl, houtput]
    · rw [drop, output?_withOutput, if_neg ho, houtput]
    · rw [hlinks' o, hlinks o ho]
  have hplace : d.wiring.layers id = some (l.output, l.plane) := by simp [wiring, hl, Layer.place]
  -- On a plane, it is unlinked first.
  cases hq : l.plane with
  | none =>
    rw [hq] at hplace
    simp only [ensures_bind, ensures_modify, ensures_output]
    refine ⟨fun _ _ => hdropped d hd hplace rfl fun _ _ => rfl, fun hnone => ?_⟩
    exact absurd (hout.symm.trans hnone) (by simp)
  | some q =>
    rw [hq] at hplace
    simp only [ensures_bind, ensures_setLink_none, ensures_modify, ensures_output]
    refine ⟨fun _ _ => ?_, fun hnone => ?_⟩
    · refine hdropped (d.unlink q) (wellFormed_unlink hd q) ?_ (outputs_unlink d q) fun o ho => ?_
      · rw [wiring_unlink hd.wiring]
        simp [Wiring.unlink, hplace]
      · rw [wiring_unlink hd.wiring, Wiring.links_unlink]
        refine Set.sep_eq_self_iff_mem_true.mpr fun x hx hxq => ho ?_
        -- A link of another output to this plane would be a second layer on it.
        have hx : d.wiring.layers x.2 = some (o, some x.1) := hx
        rw [hxq] at hx
        obtain rfl := hd.wiring.layer_unique hx hplace
        rw [hplace] at hx
        simpa using hx.symm
    · have hstale : (d.unlink q).output? l.output = none := hnone
      rw [output?, outputs_unlink] at hstale
      exact absurd (hout.symm.trans hstale) (by simp)

theorem destroyLayers_spec {o : OutputId} {ids : List LayerId} {out : Output}
    (hout : d.output? o = some out) (hids : out.layers = ids) :
    Ensures (ids.forM destroyLayer) d
      (fun _ d' => d'.WellFormed ∧ (∃ out', d'.output? o = some out' ∧ out'.layers = []) ∧
        ∀ o' ≠ o, d'.output? o' = d.output? o' ∧ d'.wiring.links o' = d.wiring.links o')
      (fun _ _ => False) := by
  -- Induction on the list of layers, each time of the output as it is then.
  induction ids generalizing d out with
  | nil => exact ⟨hd, ⟨out, hout, hids⟩, fun _ _ => ⟨rfl, rfl⟩⟩
  | cons id ids ih =>
    have hmem : id ∈ out.layers := by simp [hids]
    obtain ⟨l, hl, rfl⟩ := layer_of_output hd hout hmem
    -- The other layers listed are different ones, so they stay listed.
    have hnodup : (id :: ids).Nodup := by
      have := hd.wiring.layers_nodup l.output out.layers out.compositionLayer
        (by simp [wiring, hout, Output.members])
      rwa [Multiset.coe_nodup, hids] at this
    rw [ensures_forM_cons]
    refine (destroyLayer_spec hd id).mono ?_ ?_
    · rintro - d1 ⟨hd1, l', hl', houtput, hothers⟩
      obtain rfl : l = l' := Option.some.inj (hl.symm.trans hl')
      rw [hout, Option.map_some] at houtput
      have hleft : (out.without id).layers = ids := by
        -- With the first layer destroyed, the rest is what the output lists.
        rw [Output.without, hids, List.filter_cons_of_neg (by simp)]
        apply List.filter_eq_self.mpr
        intro x hx
        have hne : x ≠ id := fun he => (List.nodup_cons.mp hnodup).1 (he ▸ hx)
        simpa using hne
      refine (ih hd1 houtput hleft).mono ?_ fun _ _ => False.elim
      rintro - d2 ⟨hd2, hempty, hothers'⟩
      refine ⟨hd2, hempty, fun o' ho' => ?_⟩
      obtain ⟨h1, h2⟩ := hothers o' ho'
      obtain ⟨h1', h2'⟩ := hothers' o' ho'
      exact ⟨h1'.trans h1, h2'.trans h2⟩
    · rintro e d1 ⟨-, hnone⟩
      rw [hl] at hnone
      cases hnone

theorem destroyOutput_spec (o : OutputId) :
    Ensures (destroyOutput o) d
      (fun _ d' => d'.WellFormed ∧
        ∀ o' ≠ o, d'.output? o' = d.output? o' ∧ d'.wiring.links o' = d.wiring.links o')
      (fun _ d' => d' = d ∧ d.output? o = none) := by
  simp only [destroyOutput, ensures_bind, ensures_output]
  -- With an output to destroy, all its layers go first.
  refine ⟨fun out hout => ?_, fun hnone => ⟨trivial, hnone⟩⟩
  refine (destroyLayers_spec hd hout rfl).mono ?_ fun _ _ => False.elim
  rintro - d1 ⟨hd1, ⟨out', hout', hempty⟩, hothers⟩
  rw [ensures_modify]
  -- The output goes last, when it lists no layer any more.
  have houtput : ∀ o', ({ d1 with outputs := d1.outputs.remove o.toHandle } : Device σ).output? o' =
      if o' = o then none else d1.output? o' := by
    intro o'
    simp only [← OutputId.toHandle_inj]
    exact Arena.get?_remove d1.outputs o.toHandle o'.toHandle
  have hwiring : ({ d1 with outputs := d1.outputs.remove o.toHandle } : Device σ).wiring =
      d1.wiring.reown d1.wiring.layers o none := by
    simp only [wiring, Wiring.reown, Wiring.mk.injEq]
    refine ⟨trivial, rfl, funext fun o' => ?_⟩
    simp only [houtput, Function.update_apply, apply_ite (Option.map Output.members)]
    rfl
  refine ⟨⟨?_, hd1.layers, Arena.wellFormed_remove hd1.outputs _⟩, fun o' ho' => ?_⟩
  · rw [hwiring]
    -- Without members, there is nothing for it to own.
    refine hd1.wiring.reown (fun _ _ _ => Iff.rfl) (fun _ _ _ => Iff.rfl) ?_ ?_ ?_
    · intro id
      rw [← hd1.wiring.owned_iff o id]
      simp [wiring, hout', Output.members, hempty]
    · simp
    · simp
  · obtain ⟨h1, h2⟩ := hothers o' ho'
    exact ⟨by rw [houtput, if_neg ho', h1], h2⟩

theorem setCompositionLayer_spec (o : OutputId) (id : LayerId) :
    Ensures (setCompositionLayer o id) d
      (fun _ d' => d'.WellFormed ∧ d'.wiring.layers = d.wiring.layers ∧
        ∀ o', d.LayersChanged o' → d'.LayersChanged o')
      (fun _ d' => d' = d) := by
  simp only [setCompositionLayer, ensures_bind, ensures_layer]
  refine ⟨fun l hl => ?_, fun _ => trivial⟩
  by_cases ho : l.output = o
  · subst ho
    -- The layer belongs to the output, as its composition layer has to.
    obtain ⟨out, hout, hmem⟩ := output_of_layer hd hl
    simp only [ne_eq, not_true_eq_false, ↓reduceIte, ensures_bind, ensures_output, ensures_modify]
    refine ⟨fun _ _ => ⟨⟨?_, hd.layers, Arena.wellFormed_modify hd.outputs _ _⟩, rfl, ?_⟩,
      fun hnone => absurd (hout.symm.trans hnone) (by simp)⟩
    · rw [wiring_withOutput, hout, Option.map_some, Output.members]
      have houtput : d.wiring.outputs l.output = some out.members := by simp [wiring, hout]
      -- All that changes is which of the members is the composition layer.
      refine hd.wiring.reown (fun _ _ _ => Iff.rfl) (fun _ _ _ => Iff.rfl) ?_ ?_ ?_
      · intro id'
        rw [← hd.wiring.owned_iff l.output id', houtput]
        simp [Output.members]
      · rintro m c hm
        obtain ⟨rfl, -⟩ := Prod.mk.inj (Option.some.inj hm)
        exact hd.wiring.layers_nodup l.output _ _ houtput
      · rintro m id' hm
        obtain ⟨rfl, hc⟩ := Prod.mk.inj (Option.some.inj hm)
        obtain rfl := Option.some.inj hc
        exact hmem
    · refine fun o' => layersChanged_withOutput fun out hchanged => ?_
      simp [hchanged]
  · simp [ho]

end Lifetimes

end Device

end Scanout
