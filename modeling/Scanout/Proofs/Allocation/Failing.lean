import Scanout.Proofs.Allocation.Placed

namespace Scanout

variable {σ : Type}

namespace Device

def Unfit (d : Device σ) (o : OutputId) (p : Plane) : Prop :=
  ∃ id l, p.layer = some id ∧ d.layer? id = some l ∧ l.output ≠ o ∧ ¬ p.Takes l

instance (d : Device σ) (o : OutputId) (p : Plane) : Decidable (d.Unfit o p) :=
  decidable_of_iff (∃ id ∈ p.layer, ∃ l ∈ d.layer? id, l.output ≠ o ∧ ¬ p.Takes l) (by
    constructor
    · rintro ⟨id, hid, l, hl, h⟩
      exact ⟨id, l, hid, hl, h⟩
    · rintro ⟨id, l, hid, hl, h⟩
      exact ⟨id, hid, l, hl, h⟩)

/-- What does not go together now did not before either, if the layers are the same. -/
theorem Unfit.of_changes [Kernel σ] {T : σ → σ → Prop} {d d' : Device σ} {o : OutputId} {p : Plane}
    (h : d'.Unfit o p) (hchanges : Changes T Layer.SameContent d d') : d.Unfit o p := by
  obtain ⟨id, l', hlayer, hl', ho, hunfit⟩ := h
  obtain ⟨l, hl, hcontent⟩ := hchanges.sameContent hl'
  have houtput : l'.output = l.output := congrArg Prod.fst hcontent
  refine ⟨id, l, hlayer, hl, houtput ▸ ho, fun htakes => hunfit ?_⟩
  exact p.takes_congr (Layer.worn_of_content hcontent) htakes

end Device

namespace Allocation

open Device

variable [Kernel σ] {flags : CommitFlags} {o : OutputId} {noted : σ → Request → Prop}
  {request entry : Request} {d₁ d₂ : Device σ}

/-- If a plane does not take its layer after a full search, then another output has put the layer there
before. -/
theorem Laid.unfit (hd₁ : d₁.WellFormed) (h : Laid flags o noted request entry d₁ d₂) {p : Plane}
    (hp : p ∈ d₂.planes) {id : LayerId} {l : Layer} (hlayer : p.layer = some id)
    (hl : d₂.layer? id = some l) (hunfit : ¬ p.Takes l) : ∃ p₁ ∈ d₁.planes, d₁.Unfit o p₁ := by
  by_cases ho : l.output = o
  · -- The search has put the layer there, and before that it has staged it.
    obtain ⟨out, l₁, -, hl₁, -, htakes⟩ := h.presents hp hlayer hl ho
    obtain ⟨l₁', hl₁', hcontent⟩ := h.changes.sameContent hl
    obtain rfl := Option.some.inj (hl₁.symm.trans hl₁')
    exact absurd (p.takes_congr (Layer.worn_of_content hcontent) htakes) hunfit
  · -- The link is one from before the search, and neither layer nor plane has changed.
    obtain ⟨s, best, -, -, hallocated⟩ := h.allocated
    have hd₂ := hallocated.wellFormed
    have hlink := mem_links_of_plane hd₂.wiring hp hlayer hl
    rw [hallocated.others _ ho] at hlink
    obtain ⟨l₁, hl₁, ho₁, -⟩ := mem_links_iff.mp hlink
    obtain ⟨p₁, hp₁, hid₁, hlayer₁⟩ := plane_of_link hd₁.wiring hlink
    obtain ⟨l₁', hl₁', hcontent⟩ := h.changes.sameContent hl
    obtain rfl := Option.some.inj (hl₁.symm.trans hl₁')
    obtain ⟨p', hp', hsame⟩ := plane_of_scenery hallocated.scene.scenery hp₁
    obtain rfl := hd₂.wiring.plane_eq hp' hp ((Plane.id_of_bare hsame).trans hid₁)
    refine ⟨p₁, hp₁, id, l₁, hlayer₁, hl₁, ho₁ ▸ ho, fun htakes => hunfit ?_⟩
    exact p'.takes_congr (Layer.worn_of_content hcontent) (Plane.takes_of_bare hsame htakes)

/-- If the links cannot be staged after a full search, then another output has put a layer on a plane that
does not take it any more. -/
theorem Laid.exists_unfit (hd₁ : d₁.WellFormed) (h : Laid flags o noted request entry d₁ d₂)
    {r r' : Request} {e : Failure} (hstage : d₂.stageCurrent r = .error e r') :
    ∃ p ∈ d₁.planes, d₁.Unfit o p := by
  obtain ⟨s, best, hout, -, hallocated⟩ := h.allocated
  have hd₂ := hallocated.wellFormed
  have hunsuited := stageCurrent_unsuited hd₂ r
  rw [ensures_of_eq_error hstage] at hunsuited
  obtain ⟨p, hp, hsuits⟩ := hunsuited
  unfold Suits at hsuits
  cases hlayer : p.layer with
  | some id =>
    obtain ⟨l, hl, -⟩ := layer_of_plane hd₂.wiring hp hlayer
    simp only [hlayer, hl, Option.some.injEq, exists_eq_left'] at hsuits
    exact h.unfit hd₁ hp hlayer hl hsuits
  | none =>
    -- The plane has been switched off before the search.
    simp only [hlayer] at hsuits
    have hcleared := wellFormed_cleared hd₁ (o := o) (Option.isSome_of_eq_some hout)
    have hscenery := hallocated.scene.scenery.trans (sameScene_cleared d₁ o).scenery.symm
    obtain ⟨p₁, hp₁, hsame⟩ := plane_of_scenery hscenery.symm hp
    have hfree : p₁.layer = none := by
      rw [Option.eq_none_iff_forall_ne_some]
      intro id hlayer₁
      obtain ⟨l, hl, -⟩ := layer_of_plane hcleared.wiring hp₁ hlayer₁
      have hlink := mem_links_of_plane hcleared.wiring hp₁ hlayer₁ hl
      obtain ⟨ho, hlink⟩ := (mem_links_cleared d₁ o l.output _).mp hlink
      rw [← hallocated.others _ ho] at hlink
      obtain ⟨p₂, hp₂, hid₂, hlayer₂⟩ := plane_of_link hd₂.wiring hlink
      obtain rfl := hd₂.wiring.plane_eq hp₂ hp (hid₂.trans (Plane.id_of_bare hsame))
      cases hlayer.symm.trans hlayer₂
    have hstops := ((d₁.cleared o).adds_disables request entry h.disabled).2 p₁
      (List.mem_filter.mpr ⟨hp₁, Option.isNone_iff_eq_none.mpr hfree⟩)
    exact absurd (Plane.stops_of_bare hsame.symm hstops) hsuits

/-- An apply that stops with an error of the driver has got it as an answer, or it could not stage the
layer of another output. -/
theorem Stopped.justifies {d d' : Device σ} {e : Errno}
    (h : Stopped flags o noted request (.error (.kernel e)) d d') (hd : d.WellFormed) :
    Kernel.Justifies flags d.session.kernel d'.session.kernel (.error (.kernel e)) ∨
      e = .einval ∧ ∃ p ∈ d.planes, d.Unfit o p := by
  rcases h with ⟨-, hjustified⟩ | ⟨d₁, outcome, -, hdecides, -, ⟨session, rfl, hjustified⟩ |
    ⟨entry, r, hlaid, hstage⟩⟩
  · exact .inl hjustified
  · exact .inl hjustified
  · right
    -- Such a failure names a plane and the layer on it that it does not take.
    have hfails := d'.stageCurrent_fails entry
    rw [ensures_of_eq_error hstage] at hfails
    obtain ⟨heinval, p, hp, id, l, hlayer, hl, hunfit⟩ := hfails e rfl
    obtain ⟨p₁, hp₁, hunfit₁⟩ := hlaid.unfit (hdecides.wellFormed hd) hp hlayer hl hunfit
    -- Up to the decision neither links nor layers have changed.
    have hplanes : d₁.planes = d.planes := congrArg Wiring.planes hdecides.wiring
    exact ⟨heinval, p₁, hplanes ▸ hp₁, hunfit₁.of_changes hdecides.changes⟩

/-- No apply succeeds as long as there is such a plane. -/
theorem Applied.not_unfit {r : Request} {d d' : Device σ} (h : Applied flags o noted request r d d')
    (hd : d.WellFormed) {p : Plane} (hp : p ∈ d.planes) : ¬ d.Unfit o p := by
  rintro ⟨id, l, hlayer, hl, ho, hunfit⟩
  obtain ⟨d₁, d₂, outcome, hdecides, -, -, hend⟩ := h
  have hlink := mem_links_of_plane hd.wiring hp hlayer hl
  rw [← hdecides.wiring] at hlink
  -- The plane shows the layer in the end too, and there it was staged.
  have hstaged : ∃ p₂ ∈ d₂.planes, p₂.bare = p.bare ∧ p₂.layer = some id ∧ d₂.Suits p₂ ∧
      Changes (Kernel.Asks flags) Layer.SameContent d d₂ := by
    have hplanes : d₁.planes = d.planes := congrArg Wiring.planes hdecides.wiring
    rcases hend with ⟨-, rfl, hkept⟩ | ⟨-, entry, hlaid, hstage⟩
    · exact ⟨p, hplanes ▸ hp, rfl, hlayer, hkept.suits p (hplanes ▸ hp), hdecides.changes⟩
    · obtain ⟨s, best, -, -, hallocated⟩ := hlaid.allocated
      rw [← hallocated.others _ ho] at hlink
      -- The link of another output survives the search.
      obtain ⟨p₂, hp₂, hid₂, hlayer₂⟩ := plane_of_link hallocated.wellFormed.wiring hlink
      obtain ⟨p', hp', hsame⟩ := plane_of_scenery hallocated.scene.scenery (hplanes ▸ hp)
      have hp₂' : p' = p₂ :=
        hallocated.wellFormed.wiring.plane_eq hp' hp₂ ((Plane.id_of_bare hsame).trans hid₂.symm)
      have hsuits := (d₂.adds_stageCurrent entry r hstage).2 p₂ hp₂
      exact ⟨p₂, hp₂, hp₂' ▸ hsame, hlayer₂, hsuits, hdecides.changes.trans hlaid.changes⟩
  obtain ⟨p₂, -, hsame, hlayer₂, hsuits, hchanges⟩ := hstaged
  -- What suits the plane in the end would have suited it before.
  rw [Suits, hlayer₂] at hsuits
  obtain ⟨l₂, hl₂, htakes⟩ := hsuits
  obtain ⟨l', hl', hcontent⟩ := hchanges.sameContent hl₂
  obtain rfl := Option.some.inj (hl.symm.trans hl')
  exact hunfit (p.takes_congr (Layer.worn_of_content hcontent).symm (Plane.takes_of_bare hsame.symm htakes))

/-- If an apply stops with an error of the driver, then some commit that it made was answered with the
error, which is neither a plain incompatibility nor an interruption; or else the error says that the
configuration is invalid, and some plane does not take the layer of another output that it shows. As long
as there is such a plane, no apply succeeds. -/
theorem answered_or_unfit {d : Device (Recorded σ)} (hd : d.Reachable) (o : OutputId)
    (flags : CommitFlags) (options : ApplyOptions) (request : Request) :
    (∀ e f, Frame.apply o flags options ⟨d, request⟩ = .error (.error (.kernel e)) f →
      (∃ asked, f.device.session.kernel.log = asked ++ d.session.kernel.log ∧
        (∃ tested, (tested, flags.forTest, .error e) ∈ asked) ∧
        e.isIncompatibility = false ∧ e.isTransient = false) ∨
      e = .einval ∧ ∃ p ∈ d.planes, d.Unfit o p) ∧
    ((∃ p ∈ d.planes, d.Unfit o p) →
      succeeded (Frame.apply o flags options ⟨d, request⟩) = false) := by
  have hnotes := Recorded.notes d.session.kernel flags
  have hcases := apply_cases (o := o) hd.wellFormed hnotes ⟨[], rfl⟩ options request
  refine ⟨fun e f happly => ?_, ?_⟩
  · rw [ensures_of_eq_error happly] at hcases
    exact (hcases.justifies hd.wellFormed).imp_left Recorded.exists_commit_of_justifies
  · rintro ⟨p, hp, hunfit⟩
    cases happly : Frame.apply o flags options ⟨d, request⟩ with
    | error e f => rfl
    | ok _ f =>
      rw [ensures_of_eq_ok happly] at hcases
      exact absurd hunfit (hcases.not_unfit hd.wellFormed hp)

def twoRotated : Device (Recorded Scripted) :=
  twoOutputs ⟨.twoPipes, []⟩ (.setProperty ⟨⟨0, 0⟩⟩ "rotation" 2)

theorem reachable_twoRotated : twoRotated.Reachable :=
  ⟨⟨.twoPipes, []⟩, {}, [1, 2], _, run_afterAll (by decide +kernel)⟩

theorem apply_twoRotated : ∃ f : Frame (Recorded Scripted),
    Frame.apply .second {} {} ⟨twoRotated, {}⟩ = .error (.error (.kernel .einval)) f :=
  ⟨_, eq_error_of_failure? (by decide +kernel)⟩

/-- The layer that was rotated keeps the second output from being shown. -/
theorem unfit_twoRotated : ∃ f : Frame (Recorded Scripted),
    Frame.apply .second {} {} ⟨twoRotated, {}⟩ = .error (.error (.kernel .einval)) f ∧
      ∃ p ∈ twoRotated.planes, twoRotated.Unfit .second p := by
  obtain ⟨f, happly⟩ := apply_twoRotated
  refine ⟨f, happly, ?_⟩
  obtain ⟨hreports, -⟩ := answered_or_unfit reachable_twoRotated .second {} {} {}
  rcases hreports .einval f happly with ⟨asked, -, -, hhard, -⟩ | ⟨-, hunfit⟩
  · cases hhard
  · exact hunfit

/-- An apply may report an incompatibility as an error of the driver. -/
theorem not_forall_answered :
    ¬ ∀ (d : Device (Recorded Scripted)) (o : OutputId) (e : Errno) (f : Frame (Recorded Scripted)),
      d.Reachable → Frame.apply o {} {} ⟨d, {}⟩ = .error (.error (.kernel e)) f →
      ∃ asked, f.device.session.kernel.log = asked ++ d.session.kernel.log ∧
        (∃ tested flags, (tested, flags, .error e) ∈ asked) ∧
        e.isIncompatibility = false ∧ e.isTransient = false := by
  intro h
  obtain ⟨f, happly⟩ := apply_twoRotated
  obtain ⟨asked, -, -, hhard, -⟩ := h twoRotated .second .einval f reachable_twoRotated happly
  cases hhard

end Allocation

end Scanout
