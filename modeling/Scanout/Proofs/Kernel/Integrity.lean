import Scanout.Proofs.Kernel.Objects

/-! What the mock driver keeps over all calls and commits. Unless somebody takes pipes from a plane, every
plane is dark or shows a framebuffer that it takes on a pipe that it can serve: a request is judged by the
values that it gives to properties, and the writes of an accepted one give them just these values. -/

namespace Scanout
namespace Mock

/-- The plane is dark, or it shows a framebuffer of a layer that it takes, on a pipe that it can serve. -/
structure Plane.Obeys (m : Mock) (p : Plane) : Prop where
  both : ∃ fb crtc, p.value? fbIndex = some fb ∧ p.value? crtcIndex = some crtc ∧ (fb = 0 ↔ crtc = 0)
  pipe : ∀ crtc, p.value? crtcIndex = some crtc → crtc ≠ 0 →
    ∃ i < m.crtcCount, crtc = (objectId i crtcTag).toUInt64 ∧ p.possibleCrtcs.toNat.testBit i = true
  framebuffer : ∀ fb, p.value? fbIndex = some fb → fb ≠ 0 →
    ∃ i f, m.fbs[i]? = some f ∧ fb = (objectId i fbTag).toUInt64 ∧ f.layer ∈ p.compatible

structure Plane.Dark (p : Plane) : Prop where
  fb : p.value? fbIndex = some 0
  crtc : p.value? crtcIndex = some 0

theorem Plane.Dark.obeys {p : Plane} (h : p.Dark) (m : Mock) : p.Obeys m where
  both := ⟨0, 0, h.fb, h.crtc, Iff.rfl⟩
  pipe _ hcrtc hset := absurd (Option.some.inj (hcrtc.symm.trans h.crtc)) hset
  framebuffer _ hfb hset := absurd (Option.some.inj (hfb.symm.trans h.fb)) hset

structure Plane.Retains (p p' : Plane) : Prop where
  id : p'.id = p.id
  pipes : p'.possibleCrtcs = p.possibleCrtcs
  compatible : p.compatible ⊆ p'.compatible
  values : ∀ i v, p.value? i = some v → p'.value? i = some v

theorem Plane.Retains.refl (p : Plane) : p.Retains p := ⟨rfl, rfl, fun _ h => h, fun _ _ h => h⟩

theorem Plane.Retains.trans {p p' p'' : Plane} (h : p.Retains p') (h' : p'.Retains p'') : p.Retains p'' where
  id := h'.id.trans h.id
  pipes := h'.pipes.trans h.pipes
  compatible := List.Subset.trans h.compatible h'.compatible
  values i v hv := h'.values i v (h.values i v hv)

theorem Plane.Dark.retains {p p' : Plane} (h : p.Dark) (hp : p.Retains p') : p'.Dark :=
  ⟨hp.values _ _ h.fb, hp.values _ _ h.crtc⟩

theorem Plane.retains_append (p : Plane) (vs : List (Nat × UInt64)) :
    p.Retains { p with values := p.values ++ vs } where
  id := rfl
  pipes := rfl
  compatible := fun _ h => h
  values i v h := by
    simp only [value?, List.find?_append] at h ⊢
    obtain ⟨w, hw, rfl⟩ := Option.map_eq_some_iff.mp h
    rw [hw, Option.some_or, Option.map_some]

theorem eq_of_objectIndex? {id : UInt64} {tag : UInt32} {i : Nat} (h : objectIndex? id tag = some i) :
    id = (objectId i tag).toUInt64 := by
  -- An id that has an index fits into 32 bits.
  have hword : id = id.toUInt32.toUInt64 := by
    simp only [objectIndex?] at h
    split at h
    · rename_i hsort
      have hlt : id.toNat < UInt32.size := of_decide_eq_true (Bool.and_eq_true_iff.mp hsort).1
      apply UInt64.toNat_inj.mp
      rw [UInt32.toNat_toUInt64, UInt64.toNat_toUInt32]
      exact (Nat.mod_eq_of_lt hlt).symm
    · cases h
  rw [hword] at h
  rw [hword, ← eq_objectId h]

theorem eq_of_crtcIndex? {m : Mock} {crtc : UInt64} {i : Nat} (h : m.crtcIndex? crtc = some i) :
    i < m.crtcCount ∧ crtc = (objectId i crtcTag).toUInt64 := by
  obtain ⟨hid, hlt⟩ := Option.filter_eq_some_iff.mp h
  exact ⟨by simpa using hlt, eq_of_objectIndex? hid⟩

theorem eq_of_fbLayer? {m : Mock} {fb : UInt64} {layer : LayerId} (h : m.fbLayer? fb = some layer) :
    ∃ i f, m.fbs[i]? = some f ∧ fb = (objectId i fbTag).toUInt64 ∧ f.layer = layer := by
  rw [fbLayer?] at h
  split at h
  · cases h
  · obtain ⟨f, hfound, hlayer⟩ := Option.map_eq_some_iff.mp h
    obtain ⟨i, hid, hf⟩ := Option.bind_eq_some_iff.mp hfound
    exact ⟨i, f, hf, eq_of_objectIndex? hid, hlayer⟩

def Numbered (m : Mock) : Prop :=
  m.planes.map Plane.id = (List.range m.planes.length).map (objectId · planeTag)

theorem numbered_congr {m m' : Mock} (h : m'.planes.map Plane.id = m.planes.map Plane.id) :
    m'.Numbered ↔ m.Numbered := by
  have hlength : m'.planes.length = m.planes.length := by simpa using congrArg List.length h
  rw [Numbered, Numbered, h, hlength]

/-- All is still there and no plane shows anything else; a new plane shows nothing. -/
structure Upholds (m m' : Mock) : Prop where
  pipes : m.crtcCount ≤ m'.crtcCount
  properties : m.properties <+: m'.properties
  fbs : m.fbs.map Fb.layer <+: m'.fbs.map Fb.layer
  kept : ∀ q p, m.plane? q = some p → ∃ p', m'.plane? q = some p' ∧ p.Retains p'
  fresh : ∀ q p', m.plane? q = none → m'.plane? q = some p' → p'.Dark
  numbered : m.Numbered → m'.Numbered

instance : IsPreorder Mock Upholds where
  refl m := ⟨Nat.le_refl _, List.prefix_rfl, List.prefix_rfl, fun _ p hp => ⟨p, hp, .refl p⟩,
    fun _ _ hnone hp => (nomatch hnone.symm.trans hp), fun h => h⟩
  trans m m' m'' h h' := by
    refine ⟨h.pipes.trans h'.pipes, h.properties.trans h'.properties, h.fbs.trans h'.fbs,
      fun q p hp => ?_, fun q p'' hnone hp'' => ?_, fun hm => h'.numbered (h.numbered hm)⟩
    · obtain ⟨p', hp', hretains⟩ := h.kept q p hp
      obtain ⟨p'', hp'', hretains'⟩ := h'.kept q p' hp'
      exact ⟨p'', hp'', hretains.trans hretains'⟩
    · cases hbetween : m'.plane? q with
      | none => exact h'.fresh q p'' hbetween hp''
      | some p' =>
        -- The plane came in the first step and is still dark after the second.
        obtain ⟨p, hp, hretains⟩ := h'.kept q p' hbetween
        obtain rfl := Option.some.inj (hp.symm.trans hp'')
        exact (h.fresh q p' hnone hbetween).retains hretains

theorem upholds_of_planes {m m' : Mock} (hplanes : m'.planes = m.planes)
    (hpipes : m.crtcCount ≤ m'.crtcCount) (hproperties : m.properties <+: m'.properties)
    (hfbs : m.fbs.map Fb.layer <+: m'.fbs.map Fb.layer) : m.Upholds m' := by
  have hplane : ∀ q, m'.plane? q = m.plane? q := fun q => by rw [plane?, plane?, hplanes]
  refine ⟨hpipes, hproperties, hfbs, fun q p hp => ⟨p, ?_, .refl p⟩, fun q p' hnone hp' => ?_, ?_⟩
  · exact (hplane q).trans hp
  · cases hnone.symm.trans ((hplane q).symm.trans hp')
  · exact (numbered_congr (by rw [hplanes])).mpr

theorem plane?_modify {m : Mock} {f : Plane → Plane} (hf : ∀ p : Plane, (f p).id = p.id) {q : UInt32}
    {j : Nat} (hj : m.planes.findIdx? (fun p => p.id = q) = some j) (q' : UInt32) :
    { m with planes := m.planes.modify j f }.plane? q' =
      if q' = q then (m.plane? q').map f else m.plane? q' :=
  find?_modify Plane.id hf hj q'

/-- To edit a plane in a way that retains what it shows upholds the rest. -/
theorem upholds_modifyPlane (q : UInt32) {f : Plane → Plane} (hf : ∀ p : Plane, p.Retains (f p)) :
    Stays Upholds (modifyPlane q f) := by
  intro m
  rw [modifyPlane, ensures_bind, ensures_get]
  split
  · rename_i j hj
    have hplane := plane?_modify (fun p => (hf p).id) hj
    -- The plane is found at its place, all others where they were.
    refine ⟨Nat.le_refl _, List.prefix_rfl, List.prefix_rfl, fun q' p hp => ?_, fun q' p' hnone hp' => ?_, ?_⟩
    · rw [hplane q', hp]
      split
      · exact ⟨f p, rfl, hf p⟩
      · exact ⟨p, rfl, .refl p⟩
    · rw [hplane q', hnone] at hp'
      split at hp' <;> cases hp'
    · exact (numbered_congr (map_modify (fun p => (hf p).id) _ _)).mpr
  · exact refl_of Upholds m

theorem upholds_declareProperty (q : UInt32) (name : String) (kind : Property.Kind) (immutable : Bool)
    (value : UInt64) : Stays Upholds (declareProperty q name kind immutable value) := by
  intro m
  have hdeclared : m.Upholds { m with properties := m.properties ++
      [{ id := objectId m.properties.length propertyTag, name, kind, immutable }] } :=
    upholds_of_planes rfl (Nat.le_refl _) (List.prefix_append _ _) List.prefix_rfl
  simp only [declareProperty, ensures_bind, ensures_get, ensures_modify, ensures_pure]
  have hgiven := upholds_modifyPlane q (fun p => p.retains_append [(m.properties.length, value)])
  exact (hgiven _).since hdeclared

theorem upholds_createPlane (kind : PlaneKind) : Stays Upholds (createPlane kind) := by
  intro m
  -- The new plane comes last, so it is not found where another one is.
  have hplane : ∀ q, (leftBy (createPlane kind m)).plane? q = (m.plane? q).or
      (List.find? (fun p : Plane => p.id = q) [⟨objectId m.planes.length planeTag,
        (List.range basicProperties.length).map fun i => (i, if i = typeIndex then kind.value else 0),
        [], 0xFFFFFFFF⟩]) :=
    fun q => List.find?_append
  refine ⟨Nat.le_refl _, List.prefix_rfl, List.prefix_rfl, fun q p hp => ⟨p, ?_, .refl p⟩, ?_, fun hm => ?_⟩
  · exact (hplane q).trans (by rw [hp, Option.some_or])
  · intro q p' hnone hp'
    have hnew := (hplane q).symm.trans hp'
    rw [hnone, Option.none_or] at hnew
    obtain rfl := List.mem_singleton.mp (List.mem_of_find?_eq_some hnew)
    exact ⟨rfl, rfl⟩
  -- Its number is the next one.
  · show (m.planes ++ [_]).map Plane.id = _
    have hm : m.planes.map Plane.id = _ := hm
    rw [List.map_append, hm, List.map_singleton]
    show _ = (List.range (m.planes ++ [_]).length).map _
    rw [List.length_append, List.length_singleton, List.range_succ, List.map_append, List.map_singleton]

def Call.KeepsPipes : Call → Prop
  | setPossibleCrtcs _ _ => False
  | _ => True

/-- No call that keeps the pipes takes back what was there. -/
theorem upholds_perform {call : Call} (hcall : call.KeepsPipes) : Stays Upholds call.perform := by
  -- Most calls leave planes, properties and framebuffers as they are.
  have hsame : ∀ {m m' : Mock}, m'.planes = m.planes → m.crtcCount ≤ m'.crtcCount →
      m'.properties = m.properties → m'.fbs = m.fbs → m.Upholds m' := fun hplanes hpipes hproperties hfbs =>
    upholds_of_planes hplanes hpipes (by rw [hproperties]) (by rw [hfbs])
  cases call with
  | createCrtc => exact fun m => hsame rfl (Nat.le_succ _) rfl rfl
  | createPlane kind => exact (upholds_createPlane kind).bind fun _ => stays_pure _
  | setPossibleCrtcs q mask => exact hcall.elim
  | addProperty q name kind value =>
    exact (upholds_declareProperty q name kind false value).bind fun _ => stays_pure _
  | addImmutableProperty q name value =>
    exact (upholds_declareProperty q name .other true value).bind fun _ => stays_pure _
  | createBlob bytes => exact fun m => hsame rfl (Nat.le_refl _) rfl rfl
  | addFormats q pairs =>
    have hblob : ∀ bytes, Stays Upholds (createBlob bytes) := fun _ m => hsame rfl (Nat.le_refl _) rfl rfl
    refine (hblob _).bind fun blob => ?_
    exact (upholds_declareProperty q "IN_FORMATS" .blob false blob).bind fun _ => stays_pure _
  | createFb layer => exact fun m => upholds_of_planes rfl (Nat.le_refl _) List.prefix_rfl (by simp)
  | setFbInfo info =>
    -- To describe a framebuffer does not give it to another layer.
    have hlayers : ∀ (fbs : List Fb) (j : Nat),
        (fbs.modify j ({ · with info := some info })).map Fb.layer = fbs.map Fb.layer :=
      map_modify fun _ => rfl
    refine stays_get.bind fun m => ?_
    split
    · exact stays_modify fun m => upholds_of_planes rfl (Nat.le_refl _) List.prefix_rfl (by rw [hlayers])
    · exact stays_throw _
  | addCompatibleLayer q layer =>
    refine upholds_modifyPlane q fun p => ?_
    split
    · exact .refl p
    · exact ⟨rfl, rfl, List.subset_append_left _ _, fun _ _ h => h⟩
  | requirePrimary require => exact fun m => hsame rfl (Nat.le_refl _) rfl rfl
  | setCommitCost ticks => exact fun m => hsame rfl (Nat.le_refl _) rfl rfl
  | advance ticks => exact fun m => hsame rfl (Nat.le_refl _) rfl rfl
  | failNextCommit errno => exact fun m => hsame rfl (Nat.le_refl _) rfl rfl

/-- Writes change values only: pipes, properties and framebuffers stay. -/
theorem foldl_applyWrite_fixed (m : Mock) (ws : List Write) :
    (ws.foldl applyWrite m).crtcCount = m.crtcCount ∧ (ws.foldl applyWrite m).properties = m.properties ∧
      (ws.foldl applyWrite m).fbs = m.fbs := by
  -- Induction on the writes.
  induction ws generalizing m with
  | nil => exact ⟨rfl, rfl, rfl⟩
  | cons w ws ih =>
    have hfirst : (m.applyWrite w).crtcCount = m.crtcCount := by
      unfold applyWrite
      split <;> rfl
    obtain ⟨hpipes, hproperties, hfbs⟩ := ih (m.applyWrite w)
    obtain ⟨hproperties', hfbs'⟩ := m.applyWrite_fixed w
    exact ⟨hpipes.trans hfirst, hproperties.trans hproperties', hfbs.trans hfbs'⟩

def Plane.limits (p : Plane) : UInt32 × UInt32 × List LayerId := (p.id, p.possibleCrtcs, p.compatible)

theorem Plane.limits_setValue (p : Plane) (i : Nat) (v : UInt64) : (p.setValue i v).limits = p.limits := by
  unfold setValue
  split <;> rfl

theorem limits_applyWrite (m : Mock) (w : Write) :
    (m.applyWrite w).planes.map Plane.limits = m.planes.map Plane.limits := by
  unfold applyWrite
  split
  · exact map_modify (fun p => p.limits_setValue _ _) _ _
  · rfl

theorem limits_foldl (m : Mock) (ws : List Write) :
    (ws.foldl applyWrite m).planes.map Plane.limits = m.planes.map Plane.limits := by
  induction ws generalizing m with
  | nil => rfl
  | cons w ws ih => exact (ih (m.applyWrite w)).trans (m.limits_applyWrite w)

/-- Planes that agree in what no write changes are found under the same ids. -/
theorem plane?_of_limits {m m' : Mock} (h : m'.planes.map Plane.limits = m.planes.map Plane.limits)
    (q : UInt32) : (m'.plane? q).map Plane.limits = (m.plane? q).map Plane.limits := by
  have hfind : ∀ m : Mock, (m.plane? q).map Plane.limits =
      (m.planes.map Plane.limits).find? fun l => l.1 = q := by
    intro m
    rw [List.find?_map]
    rfl
  rw [hfind, hfind, h]

theorem numbered_of_limits {m m' : Mock} (h : m'.planes.map Plane.limits = m.planes.map Plane.limits) :
    m'.Numbered ↔ m.Numbered := by
  have hids : ∀ m : Mock, m.planes.map Plane.id = (m.planes.map Plane.limits).map Prod.fst := by
    intro m
    rw [List.map_map]
    rfl
  exact numbered_congr (by rw [hids, hids, h])

/-- A commit is carried out, or else no object changes. -/
theorem commit_cases (m : Mock) (r : Request) (flags : CommitFlags) :
    ((Kernel.commit m r flags).1 = .ok () → flags.isTest = true) ∧
        (∃ commitFlags clock injected, (Kernel.commit m r flags).2 =
          { m with commitFlags, clock, injected }) ∨
      (Kernel.commit m r flags).1 = .ok () ∧ flags.isTest = false ∧ m.validate r = .ok () ∧
        (Kernel.commit m r flags).2 = r.writes.foldl applyWrite (m.countCommit flags) := by
  -- An injected failure comes before anything is looked at.
  cases hinjected : m.injected with
  | cons e injected =>
    have hpending : (m.countCommit flags).injected = e :: injected := hinjected
    have hcommit : Kernel.commit m r flags =
        (.error e, { m.countCommit flags with injected }) := by
      show m.commit r flags = _
      simp only [commit, hpending]
    rw [hcommit]
    exact .inl ⟨fun hok => (by cases hok), _, _, _, rfl⟩
  | nil =>
    have hcommit := commit_eq hinjected r flags
    -- The request is refused, or passes, and then only a real commit writes.
    cases hvalid : m.validate r with
    | error e =>
      rw [hvalid] at hcommit
      rw [hcommit]
      exact .inl ⟨fun hok => (by cases hok), _, _, _, rfl⟩
    | ok _ =>
      rw [hvalid] at hcommit
      rw [hcommit]
      cases htest : flags.isTest with
      | true => exact .inl ⟨fun _ => rfl, _, _, _, rfl⟩
      | false => exact .inr ⟨rfl, rfl, rfl, rfl⟩

structure Orderly (m : Mock) : Prop where
  numbered : m.Numbered
  basics : basicProperties.length ≤ m.properties.length
  obeys : ∀ q p, m.plane? q = some p → p.Obeys m

theorem orderly_empty : empty.Orderly := ⟨rfl, Nat.le_refl _, nofun⟩

theorem Plane.Obeys.upholds {m m' : Mock} (hm : m.Upholds m') {p p' : Plane} (h : p.Obeys m)
    (hp : p.Retains p') : p'.Obeys m' := by
  -- What the plane shows is still paired.
  obtain ⟨fb, crtc, hfb, hcrtc, hboth⟩ := h.both
  have hfb' := hp.values _ _ hfb
  have hcrtc' := hp.values _ _ hcrtc
  refine ⟨⟨fb, crtc, hfb', hcrtc', hboth⟩, fun v hv hset => ?_, fun v hv hset => ?_⟩
  · obtain rfl := Option.some.inj (hcrtc'.symm.trans hv)
    obtain ⟨i, hi, hid, hmask⟩ := h.pipe crtc hcrtc hset
    exact ⟨i, Nat.lt_of_lt_of_le hi hm.pipes, hid, hp.pipes ▸ hmask⟩
  · obtain rfl := Option.some.inj (hfb'.symm.trans hv)
    obtain ⟨i, f, hf, hid, hlayer⟩ := h.framebuffer fb hfb hset
    -- The framebuffer is still at its position, and still belongs to its layer.
    have hat : (m.fbs.map Fb.layer)[i]? = some f.layer := by rw [List.getElem?_map, hf, Option.map_some]
    obtain ⟨hlt, hlayer'⟩ := List.getElem?_eq_some_iff.mp hat
    have hat' := (List.prefix_iff_getElem?.mp hm.fbs i hlt).trans (congrArg some hlayer')
    rw [List.getElem?_map] at hat'
    obtain ⟨f', hf', hsame⟩ := Option.map_eq_some_iff.mp hat'
    exact ⟨i, f', hf', hid, hp.compatible (hsame ▸ hlayer)⟩

/-- What upholds an orderly driver is orderly. -/
theorem Upholds.orderly {m m' : Mock} (h : m.Upholds m') (hm : m.Orderly) : m'.Orderly where
  numbered := h.numbered hm.numbered
  basics := hm.basics.trans h.properties.length_le
  obeys q p' hp' := by
    -- A plane is new and dark, or was there and retains what it showed.
    cases hp : m.plane? q with
    | none => exact (h.fresh q p' hp hp').obeys m'
    | some p =>
      obtain ⟨p'', hp'', hretains⟩ := h.kept q p hp
      obtain rfl := Option.some.inj (hp''.symm.trans hp')
      exact (hm.obeys q p hp).upholds h hretains

/-- A basic property of a plane has the value that the request was judged by. -/
theorem Orderly.value?_foldl {m : Mock} (hm : m.Orderly) {i : Nat} (hi : i < basicProperties.length)
    (r : Request) {q : UInt32} {p : Plane} (hp : m.plane? q = some p) {v : UInt64}
    (hv : p.value? i = some v) :
    (r.writes.foldl applyWrite m).value? q i = some (valueAfter r p i) := by
  have hindex := propertyIndex?_eq_iff (Nat.lt_of_lt_of_le hi hm.basics)
    (Nat.le_of_lt (Nat.lt_trans hi (by decide)))
  have hvalue : m.value? q i = some v := by rw [value?, hp, Option.bind_some, hv]
  have hid : p.id = q := by simpa using List.find?_some hp
  -- The last write to the property decides, if there is one.
  rw [Mock.value?_foldl hindex r.writes q, hvalue, Option.map_some, valueAfter, hv, hid]
  cases r.value? q (objectId i propertyTag) <;> rfl

theorem Orderly.commit {m : Mock} (hm : m.Orderly) (r : Request) (flags : CommitFlags) :
    (Kernel.commit m r flags).2.Orderly := by
  -- A commit that changes no plane leaves them in order.
  rcases m.commit_cases r flags with ⟨-, commitFlags, clock, injected, hleft⟩ | ⟨-, -, hvalid, hleft⟩
  · rw [hleft]
    exact ⟨hm.numbered, hm.basics, fun q p hp => ⟨(hm.obeys q p hp).both, (hm.obeys q p hp).pipe,
      (hm.obeys q p hp).framebuffer⟩⟩
  · rw [hleft]
    have hcounted : (m.countCommit flags).Orderly :=
      (upholds_of_planes rfl (Nat.le_refl _) List.prefix_rfl List.prefix_rfl :
        m.Upholds (m.countCommit flags)).orderly hm
    -- A real one writes values to the planes, and no limit of theirs.
    obtain ⟨hpipes, hproperties, hfbs⟩ := foldl_applyWrite_fixed (m.countCommit flags) r.writes
    have hlimits := limits_foldl (m.countCommit flags) r.writes
    refine ⟨(numbered_of_limits hlimits).mpr hcounted.numbered, ?_, fun q p' hp' => ?_⟩
    · rw [hproperties]
      exact hcounted.basics
    · have hsame := plane?_of_limits hlimits q
      rw [hp', Option.map_some] at hsame
      obtain ⟨p, hp, hlimit⟩ := Option.map_eq_some_iff.mp hsame.symm
      simp only [Plane.limits, Prod.mk.injEq] at hlimit
      obtain ⟨-, hmask, hcompatible⟩ := hlimit
      -- The values that the plane now has are the ones that were checked.
      obtain ⟨fb, crtc, hfb, hcrtc, -⟩ := (hcounted.obeys q p hp).both
      have hfb' := hcounted.value?_foldl (by decide) r hp hfb
      have hcrtc' := hcounted.value?_foldl (by decide) r hp hcrtc
      rw [value?, hp', Option.bind_some] at hfb' hcrtc'
      obtain ⟨-, lit, hlit, -⟩ := ((m.countCommit flags).validate_eq_ok_iff r).mp
        (((m.asked_countCommit flags).validate r).trans hvalid)
      obtain ⟨b, hcheck⟩ := checkPlane_of_litPlanes hlit (List.mem_of_find?_eq_some hp)
      obtain ⟨hboth, hfits⟩ := checkPlane_eq_ok hcheck
      refine ⟨⟨_, _, hfb', hcrtc', hboth⟩, fun v hv hset => ?_, fun v hv hset => ?_⟩
      -- The pipe is one of the mask, and the framebuffer one for the plane's layers.
      · obtain rfl := Option.some.inj (hcrtc'.symm.trans hv)
        obtain ⟨i, layer, hi, -, hbit, -⟩ := hfits fun h => hset (hboth.mp h)
        obtain ⟨hlt, hid⟩ := eq_of_crtcIndex? hi
        exact ⟨i, hpipes ▸ hlt, hid, hmask ▸ hbit⟩
      · obtain rfl := Option.some.inj (hfb'.symm.trans hv)
        obtain ⟨-, layer, -, hlayer, -, htakes⟩ := hfits hset
        obtain ⟨i, f, hf, hid, rfl⟩ := eq_of_fbLayer? hlayer
        exact ⟨i, f, hfbs ▸ hf, hid, hcompatible ▸ htakes⟩

/-- A write that passes is to a property of the plane that may change. -/
theorem exists_of_checkWrite {m : Mock} {w : Write} (h : m.checkWrite w = .ok ()) :
    ∃ i v, m.propertyIndex? w.property = some i ∧ m.value? w.object i = some v ∧
      ∀ d, m.properties[i]? = some d → d.immutable = false := by
  rw [checkWrite] at h
  split at h
  -- Such a property is there, with a value, and it is mutable.
  · rename_i p i hp hi
    split at h
    · cases h
    · rename_i hfree
      rw [Bool.or_eq_true, not_or, Option.isNone_iff_eq_none, ← ne_eq, Option.ne_none_iff_exists'] at hfree
      obtain ⟨⟨v, hv⟩, hmutable⟩ := hfree
      refine ⟨i, v, hi, by rw [value?, hp, Option.bind_some, hv], fun d hd => ?_⟩
      simpa [hd] using hmutable
  · cases h

/-- Writes to other properties do not change a value. -/
theorem value?_foldl_of_unwritten {m : Mock} {q : UInt32} {i : Nat} {ws : List Write}
    (hws : ∀ w ∈ ws, w.object = q → m.propertyIndex? w.property ≠ some i) :
    (ws.foldl applyWrite m).value? q i = m.value? q i := by
  -- Induction on the writes, none of which is to the value.
  induction ws generalizing m with
  | nil => rfl
  | cons w ws ih =>
    obtain ⟨hw, hws⟩ := List.forall_mem_cons.mp hws
    have hrest : ∀ w' ∈ ws, w'.object = q → (m.applyWrite w).propertyIndex? w'.property ≠ some i := by
      simpa only [propertyIndex?_applyWrite] using hws
    rw [List.foldl_cons, ih hrest, value?_applyWrite, if_neg fun h => hw h.1 h.2]

theorem propertyIndex?_eq_iff_eq {m : Mock} {x : UInt32} {i : Nat} (hx : m.propertyIndex? x = some i)
    (y : UInt32) : m.propertyIndex? y = some i ↔ y = x := by
  refine ⟨fun hy => ?_, fun hy => hy ▸ hx⟩
  rw [eq_objectId (Option.filter_eq_some_iff.mp hx).1, eq_objectId (Option.filter_eq_some_iff.mp hy).1]

/-- A commit that is carried out leaves every property that it writes at the value written last, and every
other property as it was. -/
theorem value?_of_commit {m : Mock} {r : Request} {flags : CommitFlags}
    (hok : (Kernel.commit m r flags).1 = .ok ()) (hreal : flags.isTest = false) (q x : UInt32) :
    (∀ v, r.value? q x = some v →
      ∃ i, m.propertyIndex? x = some i ∧ (Kernel.commit m r flags).2.value? q i = some v) ∧
    (r.value? q x = none → ∀ i, m.propertyIndex? x = some i →
      (Kernel.commit m r flags).2.value? q i = m.value? q i) := by
  rcases m.commit_cases r flags with ⟨htest, -⟩ | ⟨-, -, hvalid, hleft⟩
  -- The commit was a real one, so it was carried out.
  · cases hreal.symm.trans (htest hok)
  · have hwritten : ∀ i, m.propertyIndex? x = some i → (Kernel.commit m r flags).2.value? q i =
        (m.value? q i).map fun v => (r.value? q x).getD v := by
      intro i hi
      rw [hleft]
      exact value?_foldl (m := m.countCommit flags) (propertyIndex?_eq_iff_eq hi) r.writes q
    refine ⟨fun v hv => ?_, fun hnone i hi => ?_⟩
    -- A value that was asked for has been written, and was valid.
    · obtain ⟨w, hw, rfl, rfl⟩ := (r.isSome_value?_iff q x).mp (hv ▸ rfl)
      obtain ⟨i, v', hi, hv', -⟩ := exists_of_checkWrite (((m.validate_eq_ok_iff r).mp hvalid).1 w hw)
      exact ⟨i, hi, by rw [hwritten i hi, hv', hv, Option.map_some, Option.getD_some]⟩
    · simp only [hwritten i hi, hnone, Option.getD_none, Option.map_id']

/-- A commit that fails or is a test changes no plane. -/
theorem planes_of_commit {m : Mock} {r : Request} {flags : CommitFlags}
    (h : (Kernel.commit m r flags).1 ≠ .ok () ∨ flags.isTest = true) :
    (Kernel.commit m r flags).2.planes = m.planes := by
  rcases m.commit_cases r flags with ⟨-, _, _, _, hleft⟩ | ⟨hok, hreal, -⟩
  · rw [hleft]
  · rcases h with hfailed | htest
    · exact absurd hok hfailed
    · cases hreal.symm.trans htest

inductive Action where
  | call (call : Call)
  | commit (request : Request) (flags : CommitFlags)

def Action.after : Action → Mock → Mock
  | call c, m => c.after m
  | commit request flags, m => (Kernel.commit m request flags).2

def Action.KeepsPipes : Action → Prop
  | call c => c.KeepsPipes
  | commit _ _ => True

def afterActions (actions : List Action) (m : Mock) : Mock := actions.foldl (fun m a => a.after m) m

theorem Orderly.after {m : Mock} (hm : m.Orderly) {a : Action} (ha : a.KeepsPipes) : (a.after m).Orderly := by
  cases a with
  | call c => exact (upholds_perform ha m).leftBy.orderly hm
  | commit r flags => exact hm.commit r flags

theorem Orderly.afterActions {m : Mock} (hm : m.Orderly) {actions : List Action}
    (hactions : ∀ a ∈ actions, a.KeepsPipes) : (afterActions actions m).Orderly := by
  induction actions generalizing m with
  | nil => exact hm
  | cons a actions ih =>
    obtain ⟨ha, hactions⟩ := List.forall_mem_cons.mp hactions
    exact ih (hm.after ha) hactions

structure Fixed (m : Mock) (q : UInt32) (i : Nat) (d : Property.Descriptor) (v : UInt64) : Prop where
  declared : m.properties[i]? = some d
  immutable : d.immutable = true
  value : m.value? q i = some v

theorem Upholds.fixed {m m' : Mock} (hm : m.Upholds m') {q : UInt32} {i : Nat}
    {d : Property.Descriptor} {v : UInt64} (h : m.Fixed q i d v) : m'.Fixed q i d v := by
  obtain ⟨hlt, hat⟩ := List.getElem?_eq_some_iff.mp h.declared
  obtain ⟨p, hp, hv⟩ := Option.bind_eq_some_iff.mp h.value
  obtain ⟨p', hp', hretains⟩ := hm.kept q p hp
  refine ⟨?_, h.immutable, ?_⟩
  · rw [List.prefix_iff_getElem?.mp hm.properties i hlt, hat]
  · rw [value?, hp', Option.bind_some, hretains.values i v hv]

/-- An immutable value survives a commit. -/
theorem Fixed.commit {m : Mock} {q : UInt32} {i : Nat} {d : Property.Descriptor} {v : UInt64}
    (h : m.Fixed q i d v) (r : Request) (flags : CommitFlags) :
    (Kernel.commit m r flags).2.Fixed q i d v := by
  rcases m.commit_cases r flags with ⟨-, _, _, _, hleft⟩ | ⟨-, -, hvalid, hleft⟩
  · rw [hleft]
    exact ⟨h.declared, h.immutable, h.value⟩
  -- No write that passes is to an immutable property.
  · have hunwritten : ∀ w ∈ r.writes, w.object = q → m.propertyIndex? w.property ≠ some i := by
      intro w hw _ hi
      obtain ⟨i', _, hi', -, hmutable⟩ := exists_of_checkWrite (((m.validate_eq_ok_iff r).mp hvalid).1 w hw)
      obtain rfl := Option.some.inj (hi.symm.trans hi')
      cases h.immutable.symm.trans (hmutable d h.declared)
    rw [hleft]
    refine ⟨?_, h.immutable, ?_⟩
    · rw [(foldl_applyWrite_fixed _ r.writes).2.1]
      exact h.declared
    · rw [value?_foldl_of_unwritten (m := m.countCommit flags) hunwritten]
      exact h.value

/-- It survives calls and commits in any number. -/
theorem Fixed.afterActions {m : Mock} {q : UInt32} {i : Nat} {d : Property.Descriptor} {v : UInt64}
    (h : m.Fixed q i d v) {actions : List Action} (hactions : ∀ a ∈ actions, a.KeepsPipes) :
    (afterActions actions m).Fixed q i d v := by
  -- Induction on the actions.
  induction actions generalizing m with
  | nil => exact h
  | cons a actions ih =>
    obtain ⟨ha, hactions⟩ := List.forall_mem_cons.mp hactions
    refine ih ?_ hactions
    cases a with
    | call c => exact (upholds_perform ha m).leftBy.fixed h
    | commit r flags => exact h.commit r flags

/-- As long as ids have room for their positions, every plane is found under its id. -/
theorem Numbered.plane?_eq {m : Mock} (hm : m.Numbered) (few : m.planes.length ≤ 0x1000000) {p : Plane}
    (hp : p ∈ m.planes) : m.plane? p.id = some p := by
  have hids : (m.planes.map Plane.id).Nodup := by
    rw [hm]
    -- The ids are the objects of the first numbers, which fit below the tag.
    refine List.Nodup.map_on (fun i hi j hj hij => ?_) List.nodup_range
    have hroom : ∀ {k}, k ∈ List.range m.planes.length → k ≤ indexMask.toNat := fun hk =>
      Nat.le_of_lt_succ (Nat.lt_of_lt_of_le (List.mem_range.mp hk) few)
    exact objectId_inj (hroom hi) (hroom hj) (by decide) hij
  have hfound : (m.plane? p.id).isSome := List.find?_isSome.mpr ⟨p, hp, by simp⟩
  obtain ⟨p', hp'⟩ := Option.isSome_iff_exists.mp hfound
  have hid : p'.id = p.id := by simpa using List.find?_some hp'
  rw [hp', List.inj_on_of_nodup_map hids (List.mem_of_find?_eq_some hp') hp hid]

def Reached (m : Mock) : Prop :=
  ∃ actions : List Action, (∀ a ∈ actions, a.KeepsPipes) ∧ afterActions actions empty = m

/-- The mock driver keeps its rules over all calls and commits. -/
theorem rules_kept {m : Mock} (hm : m.Reached) (few : m.planes.length ≤ 0x1000000) :
    (∀ p ∈ m.planes, p.Obeys m) ∧
    (∀ later : List Action, (∀ a ∈ later, a.KeepsPipes) →
      ∀ q i d v, m.Fixed q i d v → (afterActions later m).Fixed q i d v) ∧
    ∀ r flags,
      ((Kernel.commit m r flags).1 ≠ .ok () ∨ flags.isTest = true →
        (Kernel.commit m r flags).2.planes = m.planes) ∧
      ((Kernel.commit m r flags).1 = .ok () → flags.isTest = false → ∀ q x,
        (∀ v, r.value? q x = some v →
          ∃ i, m.propertyIndex? x = some i ∧ (Kernel.commit m r flags).2.value? q i = some v) ∧
        (r.value? q x = none → ∀ i, m.propertyIndex? x = some i →
          (Kernel.commit m r flags).2.value? q i = m.value? q i)) := by
  obtain ⟨actions, hactions, rfl⟩ := hm
  have horderly := orderly_empty.afterActions hactions
  -- The rules hold of every driver that can be reached.
  refine ⟨fun p hp => ?_, fun later hlater q i d v h => h.afterActions hlater, fun r flags => ?_⟩
  · exact horderly.obeys p.id p (horderly.numbered.plane?_eq few hp)
  · exact ⟨planes_of_commit, fun hok hreal q x => value?_of_commit hok hreal q x⟩

def lighting : List Action :=
  let layer : LayerId := ⟨0, 0⟩
  let plane := objectId 0 planeTag
  [.call (.createPlane .primary), .call (.addImmutableProperty plane "zpos" 3), .call (.createFb layer),
    .call (.addCompatibleLayer plane layer),
    .commit ⟨[⟨plane, objectId fbIndex propertyTag, (objectId 0 fbTag).toUInt64⟩,
      ⟨plane, objectId crtcIndex propertyTag, (objectId 0 crtcTag).toUInt64⟩]⟩ {}]

theorem rules_kept_lighting :
    (afterActions lighting empty).value? (objectId 0 planeTag) fbIndex = some 0xFB000000 ∧
      ∀ p ∈ (afterActions lighting empty).planes, p.Obeys (afterActions lighting empty) := by
  have hactions : ∀ a ∈ lighting, a.KeepsPipes := by
    simp [lighting, Action.KeepsPipes, Call.KeepsPipes]
  exact ⟨by decide +kernel, (rules_kept ⟨lighting, hactions, rfl⟩ (by decide +kernel)).1⟩

end Mock
end Scanout
