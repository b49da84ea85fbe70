import Scanout.Proofs.Allocation.Placed
import Scanout.Proofs.Property.Bag

namespace Scanout

variable {σ : Type}

namespace Layer

def NamesFb (l : Layer) : Prop := ∃ e ∈ l.properties.entries, e.name = WellKnown.fbId.name

def Accounts (l : Layer) : Prop := l.plane.isSome → l.changed = true ∨ l.NamesFb

theorem Accounts.of_content {l l' : Layer} (hl : l.Accounts) (hcontent : l'.content = l.content)
    (hplane : l'.plane.isSome → l.plane.isSome) : l'.Accounts := by
  have hproperties : l'.properties = l.properties := congrArg (·.2.1) hcontent
  have hchanged : l'.changed = l.changed := congrArg (·.2.2.2) hcontent
  intro hshown
  rw [hchanged, NamesFb, hproperties]
  exact hl (hplane hshown)

theorem namesFb_of_hasFramebuffer {l : Layer} (hbag : l.properties.WellFormed)
    (h : l.hasFramebuffer = true) : l.NamesFb := by
  simp only [hasFramebuffer, Property.Bag.value?] at h
  cases hentry : l.properties.wellKnown? .fbId with
  | none =>
    rw [hentry] at h
    exact absurd h (by decide)
  | some e => exact ⟨e, (Property.Bag.wellKnown?_eq_some_iff hbag).mp hentry⟩

end Layer

namespace Device

def Accounted (d : Device σ) : Prop := ∀ id l, d.layer? id = some l → l.Accounts

def BagsWellFormed (d : Device σ) : Prop :=
  ∀ id l, d.layer? id = some l → l.properties.WellFormed

variable [Kernel σ] {T : σ → σ → Prop} {d d' : Device σ}

theorem BagsWellFormed.changes (hd : d.BagsWellFormed) (h : Changes T Layer.SameContent d d') :
    d'.BagsWellFormed := by
  intro id l' hl'
  obtain ⟨l, hl, hcontent⟩ := h.sameContent hl'
  have hproperties : l'.properties = l.properties := congrArg (·.2.1) hcontent
  rw [hproperties]
  exact hd id l hl

theorem Accounted.changes (hd : d.Accounted) (h : Changes T Layer.SameContent d d')
    (hwiring : d'.wiring = d.wiring) : d'.Accounted := by
  intro id l' hl'
  obtain ⟨l, hl, hcontent⟩ := h.sameContent hl'
  have hplace : d'.wiring.layers id = d.wiring.layers id := by rw [hwiring]
  simp only [wiring, hl, hl', Option.map_some, Option.some.injEq] at hplace
  have hplane : l'.plane = l.plane := congrArg Prod.snd hplace
  exact (hd id l hl).of_content hcontent fun hshown => hplane ▸ hshown

end Device

namespace Allocation

open Device

variable [Kernel σ] {flags : CommitFlags} {o : OutputId} {noted : σ → Request → Prop}
  {request entry r : Request} {d d₁ d₂ d' : Device σ}

/-- A search only places layers that have a framebuffer. -/
theorem Laid.hasFramebuffer (h : Laid flags o noted request entry d₁ d₂) {id : LayerId} {l₂ : Layer}
    (hl₂ : d₂.layer? id = some l₂) (ho : l₂.output = o) (hshown : l₂.plane.isSome) :
    l₂.hasFramebuffer = true := by
  -- The layer is on a plane, where the search has put it.
  obtain ⟨s, best, -, -, hallocated⟩ := h.allocated
  obtain ⟨q, hq⟩ := Option.isSome_iff_exists.mp hshown
  obtain ⟨p, hp, -, hlayer⟩ := plane_of_layer hallocated.wellFormed.wiring hl₂ hq
  obtain ⟨out, l₁, -, hl₁, hpresents, -⟩ := h.presents hp hlayer hl₂ ho
  -- The search has seen the layer with the properties it still has.
  obtain ⟨l, hl, hcontent⟩ := h.changes.sameContent hl₂
  obtain rfl := Option.some.inj (hl₁.symm.trans hl)
  have hproperties : l₂.properties = l₁.properties := congrArg (·.2.1) hcontent
  rw [Layer.hasFramebuffer, hproperties]
  exact Layer.hasFramebuffer_of_isVisible hpresents.unforced hpresents.visible

theorem Laid.namesFb (h : Laid flags o noted request entry d₁ d₂) (hbags : d₁.BagsWellFormed)
    {id : LayerId} {l₂ : Layer} (hl₂ : d₂.layer? id = some l₂) (ho : l₂.output = o)
    (hshown : l₂.plane.isSome) : l₂.NamesFb :=
  Layer.namesFb_of_hasFramebuffer (hbags.changes h.changes id l₂ hl₂) (h.hasFramebuffer hl₂ ho hshown)

/-- A search accounts for every layer of its output that it shows, and leaves all others alone. -/
theorem Laid.accounted (h : Laid flags o noted request entry d₁ d₂) (hd₁ : d₁.Accounted)
    (hbags : d₁.BagsWellFormed) : d₂.Accounted := by
  intro id l₂ hl₂
  by_cases ho : l₂.output = o
  · exact fun hshown => .inr (h.namesFb hbags hl₂ ho hshown)
  · -- Other outputs keep their links.
    obtain ⟨s, best, -, -, hallocated⟩ := h.allocated
    obtain ⟨l₁, hl₁, hcontent⟩ := h.changes.sameContent hl₂
    refine (hd₁ id l₁ hl₁).of_content hcontent fun hshown => ?_
    obtain ⟨q, hq⟩ := Option.isSome_iff_exists.mp hshown
    have hlink : (q, id) ∈ d₂.wiring.links l₂.output := mem_links_iff.mpr ⟨l₂, hl₂, rfl, hq⟩
    -- The link is an old one, and so is the layer's account.
    rw [hallocated.others _ ho] at hlink
    obtain ⟨l, hl, -, hplane⟩ := mem_links_iff.mp hlink
    obtain rfl := Option.some.inj (hl₁.symm.trans hl)
    rw [hplane]
    rfl

/-- After an apply that succeeds, the layers of the output that are on planes have the framebuffer
property. -/
theorem Applied.namesFb (h : Applied flags o noted request r d d') (hd : d.Accounted)
    (hbags : d.BagsWellFormed) {id : LayerId} {l' : Layer} (hl' : d'.layer? id = some l')
    (ho : l'.output = o) (hshown : l'.plane.isSome) : l'.NamesFb := by
  obtain ⟨d₁, d₂, outcome, hdecides, hmarks, -, hend⟩ := h
  have hbags₁ := hbags.changes hdecides.changes
  -- It does so once the request is staged, and the clean mark renames nothing.
  have hnames : ∀ l₂, d₂.layer? id = some l₂ → l₂.output = o → l₂.plane.isSome → l₂.NamesFb := by
    intro l₂ hl₂ ho₂ hshown₂
    rcases hend with ⟨-, rfl, hkept⟩ | ⟨-, entry, hlaid, -⟩
    · -- The layer was on its plane before, and it does not know of a change.
      have hunaware := hkept.unaware id l₂ hl₂ ho₂
      rcases hd.changes hdecides.changes hdecides.wiring id l₂ hl₂ hshown₂ with hchanged | hnames
      · rw [hunaware] at hchanged
        cases hchanged
      · exact hnames
    · exact hlaid.namesFb hbags₁ hl₂ ho₂ hshown₂
  rcases hmarks.layers id with hsame | ⟨-, hmarked⟩
  · exact hnames l' (hsame ▸ hl') ho hshown
  · rw [hmarked] at hl'
    obtain ⟨l₂, hl₂, rfl⟩ := Option.map_eq_some_iff.mp hl'
    obtain ⟨e, he, hname⟩ := hnames l₂ hl₂ ho hshown
    exact ⟨{ e with cleanValue := e.value }, List.mem_map_of_mem he, hname⟩

/-- An apply keeps every shown layer accounted for. -/
theorem Applied.accounted (h : Applied flags o noted request r d d') (hwell : d.WellFormed)
    (hd : d.Accounted) (hbags : d.BagsWellFormed) : d'.Accounted := by
  intro id l' hl' hshown
  by_cases ho : l'.output = o
  · exact .inr (h.namesFb hd hbags hl' ho hshown)
  · -- A layer of another output is not marked clean.
    obtain ⟨d₁, d₂, outcome, hdecides, hmarks, -, hend⟩ := h
    have hd₁ := hd.changes hdecides.changes hdecides.wiring
    -- Kept or searched, the layers are accounted for before the clean marks.
    have hd₂ : d₂.WellFormed ∧ d₂.Accounted := by
      rcases hend with ⟨-, rfl, -⟩ | ⟨-, entry, hlaid, -⟩
      · exact ⟨hdecides.wellFormed hwell, hd₁⟩
      · obtain ⟨s, best, -, -, hallocated⟩ := hlaid.allocated
        exact ⟨hallocated.wellFormed, hlaid.accounted hd₁ (hbags.changes hdecides.changes)⟩
    rcases hmarks.layers id with hsame | ⟨⟨out, hout, hmem⟩, hmarked⟩
    · exact hd₂.2 id l' (hsame ▸ hl') hshown
    · obtain ⟨l₂, hl₂, ho₂⟩ := layer_of_output hd₂.1 hout hmem
      rw [hmarked, hl₂] at hl'
      obtain rfl := Option.some.inj hl'
      exact absurd ho₂ ho

/-- An apply that is stopped leaves the layers accounted for, too. -/
theorem Stopped.accounted {failure : Failure} (h : Stopped flags o noted request failure d d')
    (hd : d.Accounted) (hbags : d.BagsWellFormed) : d'.Accounted := by
  -- It stopped before the links were cleared, in the search, or while staging.
  rcases h with ⟨hbides, -⟩ | ⟨d₁, outcome, -, hdecides, -, ⟨session, rfl, -⟩ | ⟨entry, r, hlaid, -⟩⟩
  · exact hd.changes hbides.changes hbides.wiring
  · have hd₁ := hd.changes hdecides.changes hdecides.wiring
    intro id l hl
    have hcleared := layer?_cleared d₁ o id
    rw [show (d₁.cleared o).layer? id = some l from hl] at hcleared
    obtain ⟨l₁, hl₁, rfl⟩ := Option.map_eq_some_iff.mp hcleared.symm
    -- A layer of the output has lost its plane, so it is not shown.
    split
    · intro hshown
      cases hshown
    · exact hd₁ id l₁ hl₁
  · exact hlaid.accounted (hd.changes hdecides.changes hdecides.wiring)
      (hbags.changes hdecides.changes)

/-- However an apply ends, every layer on a plane can account for it if it could before. -/
theorem apply_accounted (hwell : d.WellFormed) (hd : d.Accounted) (hbags : d.BagsWellFormed)
    (o : OutputId) (flags : CommitFlags) (options : ApplyOptions) (request : Request) :
    Ensures (Frame.apply o flags options) ⟨d, request⟩ (fun _ f' => f'.device.Accounted)
      (fun _ f' => f'.device.Accounted) := by
  have hnotes : Kernel.Notes flags _ _ := notes_asks d.session.kernel
  have hcases := apply_cases (o := o) hwell hnotes .refl options request
  exact hcases.mono (fun _ _ h => h.accounted hwell hd hbags) fun _ _ h => h.accounted hd hbags

end Allocation

end Scanout
