import Scanout.Proofs.Allocation.Apart
import Scanout.Proofs.Allocation.Eligible

namespace Scanout

variable {σ : Type}

namespace Layer

/-- A later state of a layer, wherever it is by now. The layer has the clean mark it had, and knows
whether its shape is still the same. -/
structure Recalls (l l' : Layer) : Prop where
  output : l'.output = l.output
  framebuffer : l'.cleanFramebuffer = l.cleanFramebuffer
  changed : l.changed = true → l'.changed = true
  shape : l'.changed = false →
    ({ l' with plane := none } : Layer).shape = ({ l with plane := none } : Layer).shape

instance : IsPreorder Layer Recalls where
  refl _ := ⟨rfl, rfl, id, fun _ => rfl⟩
  trans l l' l'' h h' := by
    refine ⟨h'.output.trans h.output, h'.framebuffer.trans h.framebuffer, h'.changed ∘ h.changed,
      fun hchanged => ?_⟩
    -- If the last state knows of no change, neither does the one in the middle.
    have hmiddle : l'.changed = false := by
      rw [← Bool.not_eq_true]
      intro htrue
      rw [h'.changed htrue] at hchanged
      cases hchanged
    exact (h'.shape hchanged).trans (h.shape hmiddle)

theorem Remembers.recalls {l l' : Layer} (h : l.Remembers l') (houtput : l'.output = l.output)
    (hframebuffer : l'.cleanFramebuffer = l.cleanFramebuffer) : l.Recalls l' := by
  refine ⟨houtput, hframebuffer, h.changed, fun hchanged => ?_⟩
  have hshape := h.shape hchanged
  simp only [Layer.shape, Prod.mk.injEq, true_and] at hshape ⊢
  exact ⟨hshape.1, hshape.2.2⟩

theorem recalls_of_content {l l' : Layer} (h : l'.content = l.content)
    (hframebuffer : l'.cleanFramebuffer = l.cleanFramebuffer) : l.Recalls l' := by
  obtain ⟨houtput, hproperties, hforced, hchanged⟩ :
      l'.output = l.output ∧ l'.properties = l.properties ∧
        l'.forcedComposition = l.forcedComposition ∧ l'.changed = l.changed := by
    simpa only [content, Prod.mk.injEq] using h
  refine ⟨houtput, hframebuffer, fun hl => hchanged.trans hl, fun _ => ?_⟩
  simp only [Layer.shape, hproperties, hforced]

theorem recalls_of_lasting {l l' : Layer} (h : l'.lasting = l.lasting) : l.Recalls l' :=
  recalls_of_content (congrArg Layer.content h :) (congrArg Layer.cleanFramebuffer h :)

theorem recalls_setProperty {l l' : Layer} {name : String} {value : UInt64}
    (h : l.setProperty name value = .ok l') : l.Recalls l' := by
  refine (remembers_setProperty h).recalls (congrArg Prod.fst (place_setProperty h)) ?_
  obtain ⟨-, _, _, rfl⟩ := exists_of_setProperty h
  rfl

theorem recalls_forceComposition (l : Layer) : l.Recalls l.forceComposition := by
  refine l.remembers_forceComposition.recalls (congrArg Prod.fst l.place_forceComposition) ?_
  unfold forceComposition
  split <;> rfl

end Layer

namespace Device

variable [Kernel σ] {o : OutputId} {d d' : Device σ} {op : Operation σ}

omit [Kernel σ] in
theorem linksNone_unlink (d : Device σ) (q : UInt32) : LinksNone d (d.unlink q) := by
  intro p hp hshows
  unfold unlink at hp
  split at hp
  -- The plane has lost its layer, or is as before.
  · obtain ⟨p₁, hp₁, rfl⟩ := List.mem_map.mp hp
    split at hshows
    · cases hshows
    · rename_i hne
      rwa [if_neg hne]
  · exact hp

omit [Kernel σ] in
theorem linksNone_editLayer (id : LayerId) (edit : Layer → Except Error Layer) :
    Stays LinksNone (editLayer (σ := σ) id edit) :=
  stays_editLayer fun _ _ _ _ _ => linksNone_of_eq rfl

/-- Only an apply links layers. -/
theorem linksNone_perform (happly : ∀ o request flags options, op ≠ .apply o request flags options)
    (hmakes : ¬ op.Makes) : Stays LinksNone op.perform := by
  -- Planes come or go, but none gets a layer from an operation other than an apply.
  cases op with
  | configure config => exact stays_modify fun d => linksNone_of_eq rfl
  | drive f => exact stays_modify fun d => linksNone_of_eq rfl
  | registerPlane q => exact (registers_registerPlane q).mono fun _ _ h => h.planes
  | registerAllPlanes => exact registers_registerAllPlanes.mono fun _ _ h => h.planes
  | unregisterPlane q =>
    have hforget : ∀ (d : Device σ) q, LinksNone d { d with planes := d.planes.filter fun p => p.id ≠ q } :=
      fun d q p hp _ => List.mem_of_mem_filter hp
    exact (stays_unregisterPlane linksNone_unlink hforget q).bind fun _ => stays_pure _
  | createOutput crtc => exact absurd trivial hmakes
  | destroyOutput o =>
    exact stays_destroyOutput (fun d o f _ => linksNone_of_eq rfl) linksNone_unlink
      (fun d id => linksNone_of_eq rfl) (fun d o => linksNone_of_eq rfl) o
  | createLayer o => exact absurd trivial hmakes
  | destroyLayer id =>
    exact stays_destroyLayer (fun d o f _ => linksNone_of_eq rfl) linksNone_unlink
      (fun d id => linksNone_of_eq rfl) id
  | setProperty id name value => exact linksNone_editLayer id fun l => l.setProperty name value
  | unsetProperty id name => exact linksNone_editLayer id fun l => .ok (l.unsetProperty name)
  | forceComposition id => exact linksNone_editLayer id fun l => .ok l.forceComposition
  | setCompositionLayer o id => exact stays_setCompositionLayer (fun d o f _ => linksNone_of_eq rfl) o id
  | apply o request flags options => exact absurd rfl (happly o request flags options)
  | commit request flags =>
    -- A commit is a matter of the session alone.
    refine (talks_commit request flags).mono fun _ _ h => ?_
    obtain ⟨session, rfl⟩ := h
    exact linksNone_of_eq rfl

/-- What the output shows on `d'` it has shown on `d`, on the same plane and pipe. The layers recall
their marks. -/
structure Remains (o : OutputId) (d d' : Device σ) : Prop where
  shown : ∀ p ∈ d'.planes, ∀ id l', p.layer = some id → d'.layer? id = some l' → l'.output = o →
    p ∈ d.planes ∧ ∃ l, d.layer? id = some l ∧ l.Recalls l'
  pipe : ∀ out out', d.output? o = some out → d'.output? o = some out' → out'.pipe = out.pipe

/-- An apply leaves the planes of other outputs alone. -/
theorem remains_apply (hd : d.WellFormed) {o' : OutputId} (ho : o ≠ o') (flags : CommitFlags)
    (options : ApplyOptions) (request : Request) :
    Remains o d (leftBy (Frame.apply o' flags options ⟨d, request⟩)).device := by
  have hnotes : Kernel.Notes flags _ _ := Allocation.notes_asks d.session.kernel
  have hcases := Allocation.apply_cases (o := o') hd hnotes .refl options request
  have hlinks := (hcases.mono (fun _ _ h => h.keepsLinks hd) fun _ _ h => h.keepsLinks hd).leftBy
    (P := fun f : Frame σ => KeepsLinks o' d f.device)
  -- What it asks the driver does not matter here.
  have htracks : Search.Tracks (σ := σ) flags fun _ _ _ => True :=
    ⟨fun _ => trivial, fun _ _ => trivial, fun _ => trivial, fun k path r =>
      ⟨⟨path, r, [], (Kernel.test k r flags).1, nofun⟩, rfl, rfl, rfl, trivial⟩⟩
  obtain ⟨ts, hheard, -⟩ := (Allocation.apply_heard htracks hd (o := o') options request).leftBy
  generalize (leftBy (Frame.apply o' flags options ⟨d, request⟩)).device = d' at hlinks hheard
  refine ⟨fun p hp id l' hlayer hl' hlo => ?_, fun out out' hout hout' => ?_⟩
  -- The plane was showing the layer before, as the link is one of another output.
  · have hlink := mem_links_of_plane hlinks.wellFormed.wiring hp hlayer hl'
    rw [hlo, hlinks.links o ho] at hlink
    obtain ⟨p₁, hp₁, hid, hlayer₁⟩ := plane_of_link hd.wiring hlink
    obtain ⟨l, hl, hlo₁, -⟩ := mem_links_iff.mp hlink
    have hmem := hlinks.mem_planes hd (p := p₁) ⟨hp₁, hlayer₁, hl, hlo₁ ▸ ho⟩
    obtain rfl := hlinks.wellFormed.wiring.plane_eq hmem hp hid
    refine ⟨hp₁, l, hl, ?_⟩
    -- The layer may only have got its mark, or lost its plane, had it been of that other output.
    rcases hheard.layers id with ⟨hown, -⟩ | hsame
    · simp only [Owns, hl, Option.map_some, Option.some.injEq] at hown
      exact absurd (hlo₁.symm.trans hown) ho
    · rw [hl, hl'] at hsame
      exact Layer.recalls_of_lasting (Option.some.inj hsame)
  · rw [hheard.outputs o ho, hout] at hout'
    rw [Option.some.inj hout']

/-- What is made is not shown. -/
theorem remains_of_makes (hd : d.WellFormed) (hpermits : d.Permits op) (hmakes : op.Makes) :
    Remains o d (d.after op) := by
  have hgains := gains_after hd hpermits hmakes
  have hwell := (follows_after hd hpermits).wellFormed
  refine ⟨fun p hp id l' hlayer hl' ho => ⟨hgains.planes ▸ hp, ?_⟩, fun out out' hout hout' => ?_⟩
  -- A layer that is new has no plane.
  · rcases hgains.layers id l' hl' with hl | ⟨o', rfl⟩
    · exact ⟨l', hl, refl_of Layer.Recalls l'⟩
    · obtain ⟨l, hl, hplane⟩ := layer_of_plane hwell.wiring hp hlayer
      obtain rfl := Option.some.inj (hl'.symm.trans hl)
      cases hplane
  · rcases hgains.outputs o out' hout' with ⟨out₁, hout₁, hpipe⟩ | ⟨hnone, -⟩
    · obtain rfl := Option.some.inj (hout.symm.trans hout₁)
      exact hpipe
    · cases hout.symm.trans hnone

/-- An edit leaves a layer its mark, and no other operation touches it. -/
theorem allowed_recalls (happly : ∀ o request flags options, op ≠ .apply o request flags options) :
    op.Allowed (fun _ _ => True) fun _ => Layer.Recalls := by
  refine ⟨fun _ => trivial, fun _ l => ⟨rfl, rfl, id, fun _ => rfl⟩, ?_⟩
  cases op with
  | apply o request flags options => exact absurd rfl (happly o request flags options)
  | setProperty id name value => exact fun l l' => Layer.recalls_setProperty
  | unsetProperty id name => exact fun l => (l.remembers_unsetProperty name).recalls rfl rfl
  | forceComposition id => exact Layer.recalls_forceComposition
  | drive f => exact fun _ => trivial
  | commit request flags => exact fun _ => trivial
  | _ => trivial

/-- An operation that only edits leaves the rest of an output as it was. -/
theorem remains_of_edits (happly : ∀ o request flags options, op ≠ .apply o request flags options)
    (hmakes : ¬ op.Makes) : Remains o d (d.after op) := by
  have hchanges : Changes _ _ d (d.after op) :=
    (Operation.changes_perform (allowed_recalls happly) hmakes d).leftBy
  have hplanes : LinksNone d (d.after op) := (linksNone_perform happly hmakes d).leftBy
  refine ⟨fun p hp id l' hlayer hl' ho => ⟨?_, ?_⟩, fun out out' hout hout' => ?_⟩
  · exact hplanes p hp (Option.isSome_of_eq_some hlayer)
  · exact hchanges.exists_layer (fun _ l => refl_of Layer.Recalls l) (trans_of Layer.Recalls) hl'
  · obtain ⟨out₁, hout₁, hpipe⟩ := hchanges.exists_output hout'
    obtain rfl := Option.some.inj (hout.symm.trans hout₁)
    exact hpipe

/-- What an output shows remains through all operations but its own applies. -/
theorem remains_after (hd : d.WellFormed) (hpermits : d.Permits op) (hop : ¬ op.appliesTo o) :
    Remains o d (d.after op) := by
  by_cases happly : ∃ o' request flags options, op = .apply o' request flags options
  -- An apply to another output, an operation that makes something, or an edit.
  · obtain ⟨o', request, flags, options, rfl⟩ := happly
    rw [after_apply]
    exact remains_apply hd (fun ho => hop ho.symm) flags options request
  · by_cases hmakes : op.Makes
    · exact remains_of_makes hd hpermits hmakes
    · refine remains_of_edits (fun o' request flags options heq => happly ?_) hmakes
      exact ⟨o', request, flags, options, heq⟩

end Device

end Scanout
