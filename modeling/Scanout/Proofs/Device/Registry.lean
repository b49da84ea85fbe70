import Scanout.Proofs.Device.Reach

/-! The order of visits is never made anew: each plane is put in its place once, and the list has the
order at every time, whatever was registered and forgotten before. Among equals it is the order of
registration turned round. -/

namespace Scanout

variable {σ : Type}

namespace Plane

def Ties (p q : Plane) : Prop := p.isPrimary = q.isPrimary ∧ (p.isPrimary = false → p.zpos = q.zpos)

theorem map_bare_insertInto (p : Plane) (planes : List Plane) :
    (p.insertInto planes).map bare = p.bare.insertInto (planes.map bare) := by
  induction planes with
  | nil => rfl
  | cons q planes ih =>
    simp only [insertInto, List.map_cons, apply_ite (List.map bare), ih]
    rfl

/-- A plane that is put in its place comes before all that it ties with. -/
theorem ties_insertInto (p : Plane) {planes recent : List Plane} (hmem : ∀ q ∈ planes, q ∈ recent)
    (h : planes.Pairwise fun q r => q.Ties r → [q, r].Sublist recent) :
    (p.insertInto planes).Pairwise fun q r => q.Ties r → [q, r].Sublist (p :: recent) := by
  have holder : planes.Pairwise fun q r => q.Ties r → [q, r].Sublist (p :: recent) :=
    h.imp fun hold hties => (hold hties).cons p
  clear h
  -- Induction on the list, down to the place of the new plane.
  induction planes with
  | nil => exact List.pairwise_singleton _ _
  | cons q planes ih =>
    obtain ⟨hq, hold⟩ := List.pairwise_cons.mp holder
    rw [insertInto]
    split
    -- In front of all, it comes before them in the history as well.
    · refine List.pairwise_cons.mpr ⟨fun r hr _ => ?_, holder⟩
      exact (List.singleton_sublist.mpr (hmem r hr)).cons_cons p
    · rename_i hlater
      simp only [Bool.or_eq_true, Bool.and_eq_true, Bool.not_eq_true', decide_eq_true_eq, not_or,
        not_and, Bool.not_eq_true] at hlater
      obtain ⟨hordinary, hbelow⟩ := hlater
      refine List.pairwise_cons.mpr ⟨fun r hr => ?_, ih (fun r hr => hmem r (.tail q hr)) hold⟩
      rcases List.mem_cons.mp ((insertInto_perm p planes).mem_iff.mp hr) with rfl | hr
      · -- The plane that was passed is a primary one, or it is higher.
        rintro ⟨hkind, hzpos⟩
        rw [hordinary] at hkind
        have := hzpos hkind
        have := hbelow hkind
        omega
      · exact hq r hr

end Plane

namespace Device

variable [Kernel σ]

/-- A device as registering planes and forgetting them leaves it, whether the calls succeed or not,
with the planes that are registered, the latest in front. Other operations may come between, of which
none makes another plane of one. -/
inductive Registry : Device σ → List Plane → Prop
  | fresh (kernel : σ) (config : Config) (crtcs : List UInt32) :
      Registry { session := { kernel }, config, crtcs } []
  | registered {d d' : Device σ} {recent : List Plane} {q : UInt32} {p : Plane} (h : Registry d recent)
      (hrun : registerPlane q d = .ok () d') (hp : d'.plane? q = some p) :
      Registry d' (p.bare :: recent)
  | refused {d d' : Device σ} {recent : List Plane} {q : UInt32} {e : Failure} (h : Registry d recent)
      (hrun : registerPlane q d = .error e d') : Registry d' recent
  | unregistered {d d' : Device σ} {recent : List Plane} {q : UInt32} {known : Bool}
      (h : Registry d recent) (hrun : unregisterPlane q d = .ok known d') :
      Registry d' (recent.filter fun p => p.id ≠ q)
  | operated {d : Device σ} {recent : List Plane} (op : Operation σ) (h : Registry d recent)
      (hpermits : d.Permits op)
      (hkeeps : (d.after op).planes.map Plane.bare = d.planes.map Plane.bare) :
      Registry (d.after op) recent

/-- The planes are the registered ones, and those that tie stand in the order of `recent`. -/
structure Arranged (recent : List Plane) (d : Device σ) : Prop where
  wellFormed : d.WellFormed
  perm : (d.planes.map Plane.bare).Perm recent
  ties : (d.planes.map Plane.bare).Pairwise fun p q => p.Ties q → [p, q].Sublist recent

variable {d d' : Device σ} {recent : List Plane} {q : UInt32}

theorem planes_of_refused {e : Failure} (hrun : registerPlane q d = .error e d') :
    d'.planes = d.planes := by
  have hspec := registerPlane_spec d q
  rw [ensures_of_eq_error hrun] at hspec
  obtain ⟨trace, rfl⟩ := hspec
  rfl

omit [Kernel σ] in
theorem id_ne_of_unknown (h : d.plane? q = none) : ∀ p ∈ d.planes, p.id ≠ q := by
  intro p hp
  simpa using List.find?_eq_none.mp h p hp

omit [Kernel σ] in
theorem planes_of_unregistered (hd : d.WellFormed) {known : Bool}
    (hrun : unregisterPlane q d = .ok known d') :
    d'.planes = d.planes.filter (fun p => p.id ≠ q) ∧ known = (d.plane? q).isSome := by
  have hspec : Ensures (unregisterPlane q) d
      (fun known d' => d'.planes = d.planes.filter (fun p => p.id ≠ q) ∧
        known = (d.plane? q).isSome) fun _ _ => False := by
    -- The plane is known and goes, or nothing happens.
    simp only [unregisterPlane, ensures_bind, ensures_get]
    split
    · rename_i hknown
      simp only [ensures_bind, ensures_setLink_none, ensures_modify, ensures_pure, hknown, and_true]
      -- Only the plane that goes is edited before.
      rw [planes_unlink hd.wiring, List.filter_map]
      have hids : ((fun p : Plane => decide (p.id ≠ q)) ∘ fun p =>
          if p.id = q then { p with layer := none } else p) = fun p => decide (p.id ≠ q) := by
        funext p
        rw [Function.comp_apply]
        split <;> rfl
      rw [hids]
      refine (List.map_congr_left fun p hp => ?_).trans (List.map_id _)
      exact if_neg (of_decide_eq_true (List.mem_filter.mp hp).2)
    · rename_i hunknown
      have hnone : d.plane? q = none := Option.not_isSome_iff_eq_none.mp hunknown
      refine ⟨Eq.symm (List.filter_eq_self.mpr fun p hp => ?_), by rw [hnone]; rfl⟩
      exact decide_eq_true (id_ne_of_unknown hnone p hp)
  rwa [ensures_of_eq_ok hrun] at hspec

theorem Arranged.registered (h : Arranged recent d) (hrun : registerPlane q d = .ok () d') {p : Plane}
    (hp : d'.plane? q = some p) : Arranged (p.bare :: recent) d' := by
  have hspec := registerPlane_spec d q
  have hregisters := registers_registerPlane q d
  rw [ensures_of_eq_ok hrun] at hspec hregisters
  obtain ⟨-, p', info, d₁, -, hdescribes, -, rfl⟩ := hspec
  have hd' := hregisters.wellFormed h.wellFormed
  have hmem : p' ∈ p'.insertInto d.planes := (p'.insertInto_perm d.planes).mem_iff.mpr (.head _)
  -- The plane found under the id is the one that was put in its place.
  have hp' := plane?_eq_some hd'.wiring hmem
  rw [hdescribes.id, hp, Option.some.injEq] at hp'
  subst hp'
  refine ⟨hd', ?_, ?_⟩
  · exact ((p.insertInto_perm d.planes).map Plane.bare).trans (h.perm.cons p.bare)
  · rw [Plane.map_bare_insertInto]
    exact p.bare.ties_insertInto (fun r hr => h.perm.subset hr) h.ties

omit [Kernel σ] in
theorem Arranged.unregistered (h : Arranged recent d) {known : Bool}
    (hrun : unregisterPlane q d = .ok known d') :
    Arranged (recent.filter fun p => p.id ≠ q) d' := by
  have hspec := unregisterPlane_spec h.wellFormed q
  rw [ensures_of_eq_ok hrun] at hspec
  have hplanes : d'.planes.map Plane.bare =
      (d.planes.map Plane.bare).filter fun p => p.id ≠ q := by
    rw [(planes_of_unregistered h.wellFormed hrun).1, List.filter_map]
    rfl
  refine ⟨hspec.1, hplanes ▸ h.perm.filter _, ?_⟩
  rw [hplanes]
  -- Both planes are kept, and so are their places in the history.
  refine (h.ties.sublist List.filter_sublist).imp_of_mem fun {p r} hp hr hties hsame => ?_
  have hkept : [p, r].filter (fun p => p.id ≠ q) = [p, r] := by
    rw [List.filter_eq_self]
    simp only [List.mem_cons, List.not_mem_nil, or_false, forall_eq_or_imp, forall_eq]
    exact ⟨(List.mem_filter.mp hp).2, (List.mem_filter.mp hr).2⟩
  exact hkept ▸ (hties hsame).filter _

omit [Kernel σ] in
theorem Arranged.of_planes (h : Arranged recent d) (hd' : d'.WellFormed)
    (hplanes : d'.planes.map Plane.bare = d.planes.map Plane.bare) : Arranged recent d' :=
  ⟨hd', hplanes ▸ h.perm, hplanes ▸ h.ties⟩

theorem Registry.arranged (h : Registry d recent) : Arranged recent d := by
  -- A registration adds to the history, a removal takes from it, and all else keeps it.
  induction h with
  | fresh kernel config crtcs => exact ⟨wellFormed_fresh kernel config crtcs, .nil, .nil⟩
  | registered _ hrun hp ih => exact ih.registered hrun hp
  | @refused d d' recent q e _ hrun ih =>
    have hregisters := registers_registerPlane q d
    rw [ensures_of_eq_error hrun] at hregisters
    exact ih.of_planes (hregisters.wellFormed ih.wellFormed) (by rw [planes_of_refused hrun])
  | unregistered _ hrun ih => exact ih.unregistered hrun
  | operated op _ hpermits hkeeps ih =>
    exact ih.of_planes (follows_after ih.wellFormed hpermits).wellFormed hkeeps

theorem exists_plane_of_registered (hd : d.WellFormed) (hrun : registerPlane q d = .ok () d') :
    ∃ p, d'.plane? q = some p := by
  have hspec := registerPlane_spec d q
  have hregisters := registers_registerPlane q d
  rw [ensures_of_eq_ok hrun] at hspec hregisters
  obtain ⟨-, p, info, d₁, -, hdescribes, -, rfl⟩ := hspec
  have hmem : p ∈ p.insertInto d.planes := (p.insertInto_perm d.planes).mem_iff.mpr (.head _)
  exact ⟨p, hdescribes.id ▸ plane?_eq_some (hregisters.wellFormed hd).wiring hmem⟩

/-- To register all planes of the driver is to register some of them, one after the other. -/
theorem registry_registerAllPlanes (h : Registry d recent) :
    Ensures registerAllPlanes d (fun _ d' => ∃ recent, Registry d' recent)
      (fun _ d' => ∃ recent, Registry d' recent) := by
  rw [registerAllPlanes, ensures_bind, ensures_query]
  -- Each call of the list adds one more, up to the one that fails.
  refine ⟨fun ids _ => ensures_forM (fun q _ d₁ h₁ => ?_) ⟨recent, h⟩, fun _ _ => ⟨recent, h⟩⟩
  obtain ⟨recent₁, h₁⟩ := h₁
  unfold Ensures
  cases hrun : registerPlane q d₁ with
  | ok _ d₂ =>
    obtain ⟨p, hp⟩ := exists_plane_of_registered h₁.arranged.wellFormed hrun
    exact ⟨_, h₁.registered hrun hp⟩
  | error e d₂ => exact ⟨recent₁, h₁.refused hrun⟩

omit [Kernel σ] in
/-- A plane that is forgotten leaves the others where they are. -/
theorem exists_split_of_registered (hd : d.WellFormed) (hknown : (d.plane? q).isSome) :
    ∃ front p back, d.planes = front ++ p :: back ∧ p.id = q ∧
      d.planes.filter (fun p => p.id ≠ q) = front ++ back := by
  obtain ⟨p, hp⟩ := Option.isSome_iff_exists.mp hknown
  have hid : p.id = q := by simpa using List.find?_some hp
  -- The list is cut at the plane, whose id no other has.
  obtain ⟨front, back, hsplit⟩ := List.append_of_mem (List.mem_of_find?_eq_some hp)
  refine ⟨front, p, back, hsplit, hid, ?_⟩
  have hnodup : ((front ++ p :: back).map Plane.id).Nodup := hsplit ▸ hd.wiring.ids_nodup
  rw [List.map_append, List.map_cons, List.nodup_append, List.nodup_cons] at hnodup
  obtain ⟨-, ⟨hback, -⟩, hfront⟩ := hnodup
  have hne : ∀ r ∈ front ++ back, r.id ≠ q := by
    intro r hr he
    rcases List.mem_append.mp hr with hr | hr
    · exact hfront _ (List.mem_map_of_mem hr) _ (.head _) (he.trans hid.symm)
    · exact hback (hid ▸ he ▸ List.mem_map_of_mem hr)
  rw [hsplit, List.filter_append, List.filter_cons, if_neg (by simp [hid]), ← List.filter_append,
    List.filter_eq_self]
  exact fun r hr => decide_eq_true (hne r hr)

theorem Registry.after_registered (h : Registry d recent)
    (hok : succeeded (registerPlane q d) = true) :
    ∃ p : Plane, p.id = q ∧ Registry (d.after (.registerPlane q)) (p :: recent) := by
  have hrun := eq_ok_of_succeeded hok
  obtain ⟨p, hp⟩ := exists_plane_of_registered h.arranged.wellFormed hrun
  have hid : p.id = q := by simpa using List.find?_some hp
  exact ⟨p.bare, hid, h.registered hrun hp⟩

theorem Registry.after_refused (h : Registry d recent) {e : Failure}
    (hfails : failure? (registerPlane q d) = some e) : Registry (d.after (.registerPlane q)) recent :=
  h.refused (eq_error_of_failure? hfails)

theorem Registry.after_unregistered (h : Registry d recent) :
    Registry (d.after (.unregisterPlane q)) (recent.filter fun p => p.id ≠ q) := by
  have hspec := unregisterPlane_spec h.arranged.wellFormed q
  unfold Ensures at hspec
  cases hrun : unregisterPlane q d with
  | ok known d' =>
    have hafter : d.after (.unregisterPlane q) = d' := by
      rw [after, Operation.perform, bind_of_ok hrun]
      rfl
    exact hafter ▸ h.unregistered hrun
  | error e d' =>
    rw [hrun] at hspec
    -- No removal fails.
    exact hspec.elim

def SameHardware (d d' : Device σ) : Prop := d'.planes.map Plane.bare = d.planes.map Plane.bare

omit [Kernel σ] in
instance : IsPreorder (Device σ) SameHardware where
  refl _ := rfl
  trans _ _ _ h h' := Eq.trans h' h

omit [Kernel σ] in
theorem sameHardware_withPlane (d : Device σ) (q : UInt32) (layer : Option LayerId) :
    SameHardware d (d.withPlane q ({ · with layer })) := by
  show (d.planes.map _).map Plane.bare = d.planes.map Plane.bare
  rw [List.map_map]
  refine List.map_congr_left fun p _ => ?_
  rw [Function.comp_apply]
  split <;> rfl

omit [Kernel σ] in
theorem sameHardware_unlink (d : Device σ) (q : UInt32) : SameHardware d (d.unlink q) :=
  rel_unlink sameHardware_withPlane (fun _ _ => rfl) d q

theorem sameHardware_apply (o : OutputId) (flags : CommitFlags) (options : ApplyOptions) :
    Stays (Frame.Within SameHardware) (Frame.apply (σ := σ) o flags options) := by
  have hsession : ∀ {α : Type} (x : SessionM σ α), Stays SameHardware (onSession x) := by
    intro α x d
    -- What is done to the session has nothing to do with planes.
    rw [ensures_onSession]
    unfold Ensures
    cases x d.session <;> exact rfl
  refine Allocation.stays_apply (fun _ _ _ _ => rfl) (fun _ _ _ _ => rfl) sameHardware_withPlane
    (fun e => hsession _) (fun _ _ _ => rfl) ?_ ?_
  · have hcounted : ∀ d : Device σ, SameHardware d d.counted := fun _ => rfl
    refine (Allocation.stays_updatePriorities hcounted fun _ _ _ => hsession _).bind fun _ => ?_
    refine (Allocation.stays_refreshFramebuffers (fun _ _ _ => rfl) (fun _ _ => hsession _) o).bind ?_
    exact fun _ => Allocation.stays_updateOrder fun _ _ _ _ _ => rfl
  · exact Allocation.stays_markClean (fun _ _ => rfl) (fun _ _ _ => rfl) o

/-- Only to register planes and to forget them makes other planes of them. -/
theorem Registry.exists_after {op : Operation σ} (h : Registry d recent) (hpermits : d.Permits op) :
    ∃ recent, Registry (d.after op) recent := by
  -- An operation that leaves the hardware as it is keeps the history.
  have hedit : ∀ id (edit : Layer → Except Error Layer), Stays SameHardware (editLayer (σ := σ) id edit) :=
    fun _ _ => stays_editLayer fun _ _ _ _ _ => rfl
  have hkeeps : Stays SameHardware op.perform → ∃ recent, Registry (d.after op) recent := fun hstays =>
    ⟨recent, h.operated op hpermits (hstays d).leftBy⟩
  have hmakes : op.Makes → ∃ recent, Registry (d.after op) recent := fun hmakes =>
    ⟨recent, h.operated op hpermits
      (congrArg (List.map Plane.bare) (gains_after h.arranged.wellFormed hpermits hmakes).planes)⟩
  -- Two operations change the history, and all others keep it.
  cases op with
  | registerPlane q =>
    cases hrun : registerPlane q d with
    | ok _ d' =>
      obtain ⟨p, -, hp⟩ := h.after_registered (q := q) (by rw [hrun]; rfl)
      exact ⟨p :: recent, hp⟩
    | error e d' => exact ⟨recent, h.after_refused (e := e) (by rw [hrun]; rfl)⟩
  | registerAllPlanes => exact (registry_registerAllPlanes h).leftBy
  | unregisterPlane q => exact ⟨_, h.after_unregistered⟩
  | configure config => exact hkeeps (stays_modify fun _ => rfl)
  | drive f => exact hkeeps (stays_modify fun _ => rfl)
  | createOutput crtc => exact hmakes trivial
  | createLayer o => exact hmakes trivial
  | destroyOutput o =>
    exact hkeeps (stays_destroyOutput (fun _ _ _ _ => rfl) sameHardware_unlink (fun _ _ => rfl)
      (fun _ _ => rfl) o)
  | destroyLayer id =>
    exact hkeeps (stays_destroyLayer (fun _ _ _ _ => rfl) sameHardware_unlink (fun _ _ => rfl) id)
  | setProperty id name value => exact hkeeps (hedit id fun l => l.setProperty name value)
  | unsetProperty id name => exact hkeeps (hedit id fun l => .ok (l.unsetProperty name))
  | forceComposition id => exact hkeeps (hedit id fun l => .ok l.forceComposition)
  | setCompositionLayer o id => exact hkeeps (stays_setCompositionLayer (fun _ _ _ _ => rfl) o id)
  | apply o request flags options =>
    exact hkeeps (stays_perform_apply (sameHardware_apply o flags options) request)
  | commit request flags =>
    refine hkeeps ((talks_commit request flags).mono fun _ _ hsession => ?_)
    obtain ⟨session, rfl⟩ := hsession
    exact rfl

/-- Every device that can be reached has come about by registering planes and forgetting them, so its
planes are in the order of visits. -/
theorem Reachable.exists_registry (h : d.Reachable) : ∃ recent, Registry d recent := by
  refine h.induction (P := fun d => ∃ recent, Registry d recent)
    (fun kernel config crtcs => ⟨[], .fresh kernel config crtcs⟩) ?_
  rintro d op - hpermits ⟨recent, hd⟩
  exact hd.exists_after hpermits

/-- However planes were registered and forgotten, their ids are unique and the list has exactly those
that are registered. Primary planes come first, the others from the highest down, and of planes that tie
the one that was registered last. A registration that fails leaves the list as it is, and to forget a
plane takes it out of the list and leaves the others in their order. -/
theorem Registry.traversal (h : Registry d recent) :
    (d.planes.map Plane.id).Nodup ∧
      (d.planes.map Plane.bare).Perm recent ∧
      d.planes.Pairwise (fun p q => (q.isPrimary = true → p.isPrimary = true) ∧
        (p.isPrimary = false → q.zpos ≤ p.zpos) ∧
        (p.Ties q → [p.bare, q.bare].Sublist recent)) ∧
      (∀ q e d', registerPlane q d = .error e d' → d'.planes = d.planes) ∧
      ∀ q, ∃ known d', unregisterPlane q d = .ok known d' ∧
        (known = false → q ∉ d.planes.map Plane.id ∧ d'.planes = d.planes) ∧
        (known = true → ∃ front p back, d.planes = front ++ p :: back ∧ p.id = q ∧
          d'.planes = front ++ back) := by
  have harranged := h.arranged
  have hd := harranged.wellFormed
  -- How the planes are ordered, and then what becomes of a call that fails or removes.
  refine ⟨hd.wiring.ids_nodup, harranged.perm, ?_, fun _ _ _ => planes_of_refused, fun q => ?_⟩
  · refine (hd.wiring.sorted.and (List.pairwise_map.mp harranged.ties)).imp ?_
    rintro p q ⟨hmay, hties⟩
    refine ⟨fun hq => ?_, fun hp => ?_, hties⟩
    -- A primary plane comes first of all.
    · rcases hmay with hp | ⟨hq', -⟩
      · exact hp
      · rw [hq] at hq'
        cases hq'
    · rcases hmay with hp' | ⟨-, hzpos⟩
      · rw [hp] at hp'
        cases hp'
      · exact hzpos
  · have hspec := unregisterPlane_spec hd q
    unfold Ensures at hspec
    cases hrun : unregisterPlane q d with
    | error e d' =>
      rw [hrun] at hspec
      exact hspec.elim
    | ok known d' =>
      obtain ⟨hplanes, rfl⟩ := planes_of_unregistered hd hrun
      -- The plane was not there, or the list is cut at it.
      refine ⟨_, d', rfl, fun hunknown => ?_, fun hknown => ?_⟩
      · have hother := id_ne_of_unknown (Option.not_isSome_iff_eq_none.mp (by rw [hunknown]; nofun))
        refine ⟨fun hmem => ?_, ?_⟩
        · obtain ⟨p, hp, hid⟩ := List.mem_map.mp hmem
          exact hother p hp hid
        · rw [hplanes, List.filter_eq_self]
          exact fun p hp => decide_eq_true (hother p hp)
      · obtain ⟨front, p, back, hsplit, hid, hfilter⟩ := exists_split_of_registered hd hknown
        exact ⟨front, p, back, hsplit, hid, hplanes.trans hfilter⟩

/-- Of two overlays at one position the first is forgotten and registered again, and the second cannot be
registered twice. -/
theorem traversal_twoOverlays :
    let d := ({ session := { kernel := .threeOverlays }, crtcs := [1] } : Device Scripted).afterAll
      [.registerPlane 10, .registerPlane 11, .unregisterPlane 10, .registerPlane 10, .registerPlane 11]
    ∃ recent, Registry d recent ∧ recent.map Plane.id = [10, 11] ∧
      (d.planes.map Plane.bare).Perm recent ∧ d.planes.map Plane.id = [10, 11] := by
  obtain ⟨p₁, hp₁, h₁⟩ := (Registry.fresh Scripted.threeOverlays {} [1]).after_registered (q := 10)
    (by decide +kernel)
  obtain ⟨p₂, hp₂, h₂⟩ := h₁.after_registered (q := 11) (by decide +kernel)
  obtain ⟨p₃, hp₃, h₃⟩ := (h₂.after_unregistered (q := 10)).after_registered (q := 10)
    (by decide +kernel)
  have h : Registry _ _ := h₃.after_refused (q := 11) (e := .error (.duplicatePlane 11))
    (by decide +kernel)
  refine ⟨_, h, ?_, h.traversal.2.1, by decide +kernel⟩
  simp [hp₁, hp₂, hp₃]

end Device

end Scanout
