import Scanout.Proofs.Allocation.Effect

namespace Scanout

variable {σ : Type}

namespace Plane

/-- What a search asks of a layer and a plane alone, for a pipe. -/
structure Presents (p : Plane) (crtcIndex : Nat) (l : Layer) : Prop where
  serves : p.canServe crtcIndex = true
  visible : l.isVisible = true
  unforced : l.forcedComposition = false
  allows : p.allowsFramebuffer l = true

theorem Presents.of_bare {p p' : Plane} {crtcIndex : Nat} {l : Layer} (h : p.Presents crtcIndex l)
    (hbare : p'.bare = p.bare) : p'.Presents crtcIndex l := by
  have hcrtcs : p'.possibleCrtcs = p.possibleCrtcs := (congrArg Plane.possibleCrtcs hbare :)
  have hformats : p'.formats = p.formats := (congrArg Plane.formats hbare :)
  refine ⟨?_, h.visible, h.unforced, ?_⟩
  · simpa only [canServe, hcrtcs] using h.serves
  · simpa only [allowsFramebuffer, hformats] using h.allows

end Plane

namespace Layer

/-- A visible layer that is not left to composition by force has a framebuffer. -/
theorem hasFramebuffer_of_isVisible {l : Layer} (hforced : l.forcedComposition = false)
    (hvisible : l.isVisible = true) : l.hasFramebuffer = true := by
  simp only [isVisible, hforced, Bool.false_or, Bool.and_eq_true] at hvisible
  exact hvisible.2

end Layer

namespace Search

theorem misfit?_eq_none {p : Plane} {l : Layer} :
    misfit? p l = none ↔ l.forcedComposition = false ∧ p.allowsFramebuffer l = true := by
  unfold misfit?
  cases l.forcedComposition <;> cases p.allowsFramebuffer l <;> simp

theorem Placed.presents {s : Scene} {earlier : Path} {p : Plane} {id : LayerId} {l : Layer}
    (h : Placed s earlier p id l) : p.Presents s.output.crtcIndex l := by
  obtain ⟨hforced, hallows⟩ := misfit?_eq_none.mp h.fits
  have hserves := (Plane.isFreeFor_eq_true_iff.mp h.free).2
  exact ⟨hserves, h.visible, hforced, hallows⟩

end Search

namespace Allocation

open Device

variable [Kernel σ] {flags : CommitFlags} {o : OutputId} {noted : σ → Request → Prop}
  {request entry : Request} {d₁ d₂ : Device σ}

/-- A plane that a search has given a layer of the output takes the layer and may show it. -/
theorem Laid.presents (h : Laid flags o noted request entry d₁ d₂) {p : Plane} (hp : p ∈ d₂.planes)
    {id : LayerId} {l₂ : Layer} (hlayer : p.layer = some id) (hl₂ : d₂.layer? id = some l₂)
    (ho : l₂.output = o) : ∃ out l₁, d₁.output? o = some out ∧ d₁.layer? id = some l₁ ∧
      p.Presents out.crtcIndex l₁ ∧ p.Takes l₁ := by
  obtain ⟨s, best, hout, hlayers, hallocated⟩ := h.allocated
  -- The link comes from a choice of the best path.
  have hwiring := hallocated.wellFormed.wiring
  have hlink := mem_links_of_plane hwiring hp hlayer hl₂
  rw [ho, hallocated.links] at hlink
  obtain ⟨b, rfl, hassigned⟩ := hlink
  obtain ⟨c, hc, hcid, hid⟩ := Search.mem_assignments.mp hassigned
  obtain ⟨-, hfeasible⟩ := hallocated.feasible b rfl
  -- The walk has visited the plane, and put the layer on it by the rules.
  have hbare : c.plane.bare = p.bare := by
    obtain ⟨r, hwalk⟩ := hfeasible.walk
    have hmem : c.plane.bare ∈ d₂.planes.map Plane.bare := by
      rw [← bare_of_walk hallocated hwalk]
      exact List.mem_map_of_mem (List.mem_reverse.mpr hc)
    obtain ⟨p', hp', hsame⟩ := List.mem_map.mp hmem
    rw [← hwiring.plane_eq hp' hp ((Plane.id_of_bare hsame).trans hcid)]
    exact hsame.symm
  -- The choice kept the rules, and its layer was staged.
  obtain ⟨earlier, l, -, hplaced⟩ := hfeasible.legal.exists_placed hc hid
  obtain ⟨l', hl', htakes⟩ := hfeasible.takes hc hid
  obtain rfl := Option.some.inj (hl'.symm.trans hplaced.layer)
  -- What it has seen of the layer is what the layer was, without its plane and its candidates.
  have hcleared := layer?_cleared d₁ o id
  rw [Device.layer?, ← hlayers] at hcleared
  obtain ⟨l₁, hl₁, hseen⟩ := Option.map_eq_some_iff.mp (hcleared.symm.trans hplaced.layer)
  have hpresents := hplaced.presents.of_bare hbare.symm
  have htakes := Plane.takes_of_bare hbare.symm htakes
  refine ⟨s.output, l₁, hout, hl₁, ?_⟩
  split at hseen <;> subst hseen
  · exact ⟨⟨hpresents.serves, hpresents.visible, hpresents.unforced, hpresents.allows⟩, htakes⟩
  · exact ⟨hpresents, htakes⟩

end Allocation

end Scanout
