import Mathlib.Data.List.Infix
import Scanout.Proofs.Kernel.Mock

namespace Scanout
namespace Mock

inductive Call where
  | createCrtc
  | createPlane (kind : PlaneKind)
  | setPossibleCrtcs (plane mask : UInt32)
  | addProperty (plane : UInt32) (name : String) (kind : Property.Kind) (value : UInt64)
  | addImmutableProperty (plane : UInt32) (name : String) (value : UInt64)
  | createBlob (bytes : List UInt8)
  | addFormats (plane : UInt32) (pairs : List (UInt32 × UInt64))
  | createFb (layer : LayerId)
  | setFbInfo (info : Framebuffer)
  | addCompatibleLayer (plane : UInt32) (layer : LayerId)
  | requirePrimary (require : Bool)
  | setCommitCost (ticks : UInt64)
  | advance (ticks : UInt64)
  | failNextCommit (errno : Errno)

namespace Call

def perform : Call → MockM Unit
  | createCrtc => do let _ ← Mock.createCrtc
  | createPlane kind => do let _ ← Mock.createPlane kind
  | setPossibleCrtcs plane mask => Mock.setPossibleCrtcs plane mask
  | addProperty plane name kind value => do let _ ← Mock.addProperty plane name kind value
  | addImmutableProperty plane name value => do let _ ← Mock.addImmutableProperty plane name value
  | createBlob bytes => do let _ ← Mock.createBlob bytes
  | addFormats plane pairs => Mock.addFormats plane pairs
  | createFb layer => do let _ ← Mock.createFb layer
  | setFbInfo info => Mock.setFbInfo info
  | addCompatibleLayer plane layer => Mock.addCompatibleLayer plane layer
  | requirePrimary require => Mock.requirePrimary require
  | setCommitCost ticks => Mock.setCommitCost ticks
  | advance ticks => Mock.advance ticks
  | failNextCommit errno => Mock.failNextCommit errno

def after (call : Call) (m : Mock) : Mock := leftBy (call.perform m)

def NamesNew : Call → Prop
  | addProperty _ name _ _ | addImmutableProperty _ name _ => name ∉ basicProperties
  | _ => True

end Call

/-- Each property has the id of its position. The basic ones keep their positions and their names to
themselves, and every plane has them. -/
structure WellFormed (m : Mock) : Prop where
  ids : ∀ (i : Nat) d, m.properties[i]? = some d → d.id = objectId i propertyTag
  basics : ∀ (i : Nat) name, basicProperties[i]? = some name →
    ∃ d : Property.Descriptor, m.properties[i]? = some d ∧ d.name = name ∧ d.immutable = false
  others : ∀ (i : Nat) d, m.properties[i]? = some d → d.name ∈ basicProperties →
    i < basicProperties.length
  values : ∀ p ∈ m.planes, ∀ i < basicProperties.length, (p.value? i).isSome

/-- A new mock has the basic properties at their positions and nothing else. -/
theorem wellFormed_empty : Mock.empty.WellFormed where
  ids i d h := by
    have hd : (basicProperties[i]?).map _ = some d := List.getElem?_mapIdx ▸ h
    obtain ⟨name, -, rfl⟩ := Option.map_eq_some_iff.mp hd
    rfl
  basics i name h := by
    have hd : Mock.empty.properties[i]? = (basicProperties[i]?).map _ := List.getElem?_mapIdx
    rw [hd, h]
    exact ⟨_, rfl, rfl, rfl⟩
  others i d h _ := by
    obtain ⟨hi, -⟩ := List.getElem?_eq_some_iff.mp h
    simpa [empty, basicDescriptors] using hi
  values := nofun

def DistinctIds (m : Mock) : Prop := (m.properties.map Property.Descriptor.id).Nodup

/-- As long as ids have room for their positions, no two properties share one. -/
theorem WellFormed.distinctIds {m : Mock} (hm : m.WellFormed) (few : m.properties.length ≤ 0x1000000) :
    m.DistinctIds := by
  have hids : m.properties.map Property.Descriptor.id =
      (List.range m.properties.length).map fun i => objectId i propertyTag := by
    refine List.ext_getElem? fun i => ?_
    rw [List.getElem?_map, List.getElem?_map]
    -- Past the last property both lists end, and before it the id is made from the position.
    cases hd : m.properties[i]? with
    | none =>
      have hlast : m.properties.length ≤ i := List.getElem?_eq_none_iff.mp hd
      rw [List.getElem?_eq_none (by rwa [List.length_range])]
      rfl
    | some d =>
      rw [List.getElem?_range (List.getElem?_eq_some_iff.mp hd).1]
      exact congrArg some (hm.ids i d hd)
  rw [DistinctIds, hids]
  refine List.Nodup.map_on (fun i hi j hj hij => ?_) List.nodup_range
  -- The mask is the last position that an id has room for.
  have hroom : ∀ {k}, k ∈ List.range m.properties.length → k ≤ indexMask.toNat := fun hk =>
    Nat.le_of_lt_succ (Nat.lt_of_lt_of_le (List.mem_range.mp hk) few)
  exact objectId_inj (hroom hi) (hroom hj) (by decide) hij

/-- A property has the name of a basic one if and only if it has its id. -/
theorem WellFormed.name_eq_iff {m : Mock} (hm : m.WellFormed) (hids : m.DistinctIds)
    {d : Property.Descriptor} (hd : d ∈ m.properties) {i : Nat} {name : String}
    (hi : basicProperties[i]? = some name) : d.name = name ↔ d.id = objectId i propertyTag := by
  obtain ⟨j, hj⟩ := List.mem_iff_getElem?.mp hd
  obtain ⟨d', hd', hname, -⟩ := hm.basics i name hi
  -- A property with a basic name is one of the basic ones, so its position is known.
  constructor
  · intro hdname
    have hlt := hm.others j d hj (hdname ▸ List.mem_of_getElem? hi)
    obtain ⟨d'', hd'', hname'', -⟩ := hm.basics j _ (List.getElem?_eq_getElem hlt)
    obtain rfl := Option.some.inj (hj.symm.trans hd'')
    have hsame : basicProperties[j]? = basicProperties[i]? := by
      rw [hi, List.getElem?_eq_getElem hlt, ← hname'', hdname]
    have hji : j = i := (List.getElem?_inj hlt (by decide)).mp hsame
    exact hji ▸ hm.ids j d hj
  -- No two properties share an id, so this one is the basic one itself.
  · intro hid
    have hsame : d = d' :=
      List.inj_on_of_nodup_map hids hd (List.mem_of_getElem? hd') (hid.trans (hm.ids i d' hd').symm)
    exact hsame ▸ hname

theorem propertyIndex?_eq_iff {m : Mock} {i : Nat} (hi : i < m.properties.length)
    (hfew : i ≤ indexMask.toNat) (x : UInt32) :
    m.propertyIndex? x = some i ↔ x = objectId i propertyTag := by
  rw [propertyIndex?, Option.filter_eq_some_iff]
  constructor
  · exact fun h => eq_objectId h.1
  · rintro rfl
    exact ⟨objectIndex?_objectId hfew (by decide), by simpa using hi⟩

theorem WellFormed.propertyIndex?_eq_iff {m : Mock} (hm : m.WellFormed) {i : Nat} {name : String}
    (hi : basicProperties[i]? = some name) (x : UInt32) :
    m.propertyIndex? x = some i ↔ x = objectId i propertyTag := by
  obtain ⟨d, hd, -⟩ := hm.basics i name hi
  have hfew : i ≤ indexMask.toNat :=
    Nat.le_of_lt (Nat.lt_trans (List.getElem?_eq_some_iff.mp hi).1 (by decide))
  exact Mock.propertyIndex?_eq_iff (List.getElem?_eq_some_iff.mp hd).1 hfew x

theorem WellFormed.isSome_value? {m : Mock} (hm : m.WellFormed) {q : UInt32}
    (hq : (m.plane? q).isSome) {i : Nat} (hi : i < basicProperties.length) :
    (m.value? q i).isSome := by
  obtain ⟨p, hp⟩ := Option.isSome_iff_exists.mp hq
  rw [value?, hp]
  exact hm.values p (List.mem_of_find?_eq_some hp) i hi

theorem WellFormed.checkWrite_eq_ok {m : Mock} (hm : m.WellFormed) {w : Write}
    (hplane : (m.plane? w.object).isSome) {i : Nat} {name : String}
    (hi : basicProperties[i]? = some name) (hproperty : w.property = objectId i propertyTag) :
    m.checkWrite w = .ok () := by
  obtain ⟨p, hp⟩ := Option.isSome_iff_exists.mp hplane
  have hindex := (hm.propertyIndex?_eq_iff hi w.property).mpr hproperty
  have hvalue := hm.values p (List.mem_of_find?_eq_some hp) i (List.getElem?_eq_some_iff.mp hi).1
  obtain ⟨d, hd, -, hmutable⟩ := hm.basics i name hi
  simp [checkWrite, hp, hindex, Option.isNone_eq_false_iff.mpr hvalue, hd, hmutable]

structure Grows (m m' : Mock) : Prop where
  properties : m.properties <+: m'.properties
  planes : m.planes.map Plane.id <+: m'.planes.map Plane.id
  fbs : m.fbs.map Fb.layer <+: m'.fbs.map Fb.layer
  wellFormed : m.WellFormed → m'.WellFormed

instance : IsPreorder Mock Grows where
  refl _ := ⟨List.prefix_rfl, List.prefix_rfl, List.prefix_rfl, fun h => h⟩
  trans _ _ _ h h' := ⟨h.properties.trans h'.properties, h.planes.trans h'.planes,
    h.fbs.trans h'.fbs, fun hm => h'.wellFormed (h.wellFormed hm)⟩

theorem Grows.plane {m m' : Mock} (h : m.Grows m') {q : UInt32} (hq : (m.plane? q).isSome) :
    (m'.plane? q).isSome := by
  have hids : ∀ m : Mock, (m.plane? q).isSome ↔ q ∈ m.planes.map Plane.id := by
    intro m
    simp [plane?]
  rw [hids] at hq ⊢
  exact h.planes.subset hq

/-- A framebuffer that exists keeps its owner when others are added. -/
theorem fbLayer?_of_prefix {m m' : Mock} (h : m.fbs.map Fb.layer <+: m'.fbs.map Fb.layer)
    {fb : UInt64} {id : LayerId} (hfb : m.fbLayer? fb = some id) : m'.fbLayer? fb = some id := by
  have hlayers : ∀ m : Mock, m.fbLayer? fb = if fb = 0 then none else
      (objectIndex? fb fbTag).bind fun i => (m.fbs.map Fb.layer)[i]? := by
    intro m
    simp only [Mock.fbLayer?, Option.map_bind, List.getElem?_map, Function.comp_def]
  rw [hlayers] at hfb ⊢
  -- The id zero stands for no framebuffer.
  split at hfb
  · cases hfb
  · rename_i hzero
    rw [if_neg hzero]
    obtain ⟨i, hi, hlayer⟩ := Option.bind_eq_some_iff.mp hfb
    obtain ⟨hlt, hat⟩ := List.getElem?_eq_some_iff.mp hlayer
    rw [hi, Option.bind_some, List.prefix_iff_getElem?.mp h i hlt, hat]

theorem Grows.fbLayer? {m m' : Mock} (h : m.Grows m') {fb : UInt64} {id : LayerId}
    (hfb : m.fbLayer? fb = some id) : m'.fbLayer? fb = some id :=
  fbLayer?_of_prefix h.fbs hfb

/-- Replacing one element keeps what the replacement keeps of every element. -/
theorem map_modify {α β : Type} {f : α → α} {g : α → β} (hf : ∀ a, g (f a) = g a) (xs : List α)
    (j : Nat) : (xs.modify j f).map g = xs.map g := by
  apply List.ext_getElem?
  intro i
  rw [List.getElem?_map, List.getElem?_map, List.getElem?_modify]
  cases xs[i]? with
  | none => rfl
  | some a =>
    by_cases hji : j = i
    · simp [hji, hf]
    · simp [hji]

structure Plane.Keeps (p p' : Plane) : Prop where
  id : p'.id = p.id
  values : ∀ i, (p.value? i).isSome → (p'.value? i).isSome

theorem Plane.keeps_setValue (p : Plane) (i : Nat) (v : UInt64) : p.Keeps (p.setValue i v) where
  id := by unfold setValue; split <;> rfl
  values i' h := by
    rw [value?_setValue]
    split
    · rwa [Option.isSome_map]
    · exact h

theorem Plane.keeps_append (p : Plane) (vs : List (Nat × UInt64)) :
    p.Keeps { p with values := p.values ++ vs } where
  id := rfl
  values i h := by
    simp only [value?, Option.isSome_map, List.find?_append, Option.isSome_or] at h ⊢
    rw [h, Bool.true_or]

/-- A change to one plane that keeps its id and its properties' presence is growth. -/
theorem grows_modify (m : Mock) {f : Plane → Plane} (hf : ∀ p : Plane, p.Keeps (f p)) (j : Nat) :
    m.Grows { m with planes := m.planes.modify j f } where
  properties := List.prefix_rfl
  planes := by rw [map_modify fun p => (hf p).id]
  fbs := List.prefix_rfl
  wellFormed hm := by
    refine ⟨hm.ids, hm.basics, hm.others, fun p hp i hi => ?_⟩
    obtain ⟨k, hk⟩ := List.mem_iff_getElem?.mp hp
    rw [List.getElem?_modify] at hk
    -- Only the plane at the position given differs from the one before.
    obtain ⟨p₀, hp₀, rfl⟩ := Option.map_eq_some_iff.mp hk
    have hvalue := hm.values p₀ (List.mem_of_getElem? hp₀) i hi
    split
    · exact (hf p₀).values i hvalue
    · exact hvalue

theorem grows_modifyPlane (q : UInt32) {f : Plane → Plane} (hf : ∀ p : Plane, p.Keeps (f p)) :
    Stays Grows (modifyPlane q f) := by
  apply stays_get.bind
  intro m
  split
  · exact stays_modify fun m => m.grows_modify hf _
  · exact stays_throw _

theorem grows_declareProperty (q : UInt32) {name : String} (hname : name ∉ basicProperties)
    (kind : Property.Kind) (immutable : Bool) (value : UInt64) :
    Stays Grows (declareProperty q name kind immutable value) := by
  intro m
  have hdeclared : m.Grows { m with properties := m.properties ++
      [{ id := objectId m.properties.length propertyTag, name, kind, immutable }] } := by
    -- The new property comes last, so it takes no position from another.
    have hlast : ∀ {i : Nat} {d d' : Property.Descriptor}, (m.properties ++ [d'])[i]? = some d →
        m.properties[i]? = some d ∨ i = m.properties.length ∧ d = d' := by
      intro i d d' hd
      rw [List.getElem?_append] at hd
      split at hd
      · exact .inl hd
      · rename_i hi
        obtain ⟨hlt, rfl⟩ := List.getElem?_eq_some_iff.mp hd
        rw [List.length_singleton] at hlt
        exact .inr ⟨by omega, by simp⟩
    refine ⟨List.prefix_append _ _, List.prefix_rfl, List.prefix_rfl, fun hm => ⟨?_, ?_, ?_, hm.values⟩⟩
    -- The ids, then the basic properties, then the other names.
    · intro i d hd
      rcases hlast hd with hd | ⟨rfl, rfl⟩
      · exact hm.ids i d hd
      · rfl
    · intro i basic hi
      obtain ⟨d, hd, hdname⟩ := hm.basics i basic hi
      have hlt := (List.getElem?_eq_some_iff.mp hd).1
      exact ⟨d, by rwa [List.getElem?_append_left hlt], hdname⟩
    · intro i d hd hbasic
      rcases hlast hd with hd | ⟨-, rfl⟩
      · exact hm.others i d hd hbasic
      · exact absurd hbasic hname
  simp only [declareProperty, ensures_bind, ensures_get, ensures_modify, ensures_pure]
  have hgiven := grows_modifyPlane q (fun p => p.keeps_append [(m.properties.length, value)])
  exact (hgiven _).since hdeclared

theorem grows_of_prefix {m m' : Mock} (hproperties : m'.properties = m.properties)
    (hplanes : m'.planes = m.planes) (hfbs : m.fbs.map Fb.layer <+: m'.fbs.map Fb.layer) :
    m.Grows m' := by
  refine ⟨by rw [hproperties], by rw [hplanes], hfbs, fun hm => ?_⟩
  exact ⟨hproperties ▸ hm.ids, hproperties ▸ hm.basics, hproperties ▸ hm.others, hplanes ▸ hm.values⟩

/-- Whatever is done to the driver, its objects stay. -/
theorem grows_perform {call : Call} (hnames : call.NamesNew) : Stays Grows call.perform := by
  have hsame : ∀ {m m' : Mock}, m'.properties = m.properties → m'.planes = m.planes →
      m'.fbs = m.fbs → m.Grows m' := fun hproperties hplanes hfbs =>
    grows_of_prefix hproperties hplanes (by rw [hfbs])
  -- Calls that make something add it at the end; all others leave ids and owners alone.
  cases call with
  | createCrtc => exact fun m => hsame rfl rfl rfl
  | createPlane kind =>
    intro m
    refine ⟨List.prefix_rfl, ?_, List.prefix_rfl, fun hm => ⟨hm.ids, hm.basics, hm.others, ?_⟩⟩
    · simp
    · intro p hp i hi
      rcases List.mem_append.mp hp with hp | hp
      · exact hm.values p hp i hi
      · rw [List.mem_singleton.mp hp, Plane.value?, Option.isSome_map, List.find?_isSome]
        exact ⟨_, List.mem_map_of_mem (List.mem_range.mpr hi), by simp⟩
  | setPossibleCrtcs q mask => exact grows_modifyPlane q fun p => ⟨rfl, fun _ h => h⟩
  | addProperty q name kind value =>
    exact (grows_declareProperty q hnames kind false value).bind fun _ => stays_pure _
  | addImmutableProperty q name value =>
    exact (grows_declareProperty q hnames .other true value).bind fun _ => stays_pure _
  | createBlob bytes => exact fun m => hsame rfl rfl rfl
  | addFormats q pairs =>
    have hblob : ∀ bytes, Stays Grows (createBlob bytes) := fun _ m => hsame rfl rfl rfl
    refine (hblob _).bind fun blob => ?_
    exact (grows_declareProperty q (by decide) .blob false blob).bind fun _ => stays_pure _
  | createFb layer =>
    exact fun m => grows_of_prefix rfl rfl (by simp)
  | setFbInfo info =>
    have hlayers : ∀ (fbs : List Fb) (j : Nat),
        (fbs.modify j ({ · with info := some info })).map Fb.layer = fbs.map Fb.layer :=
      map_modify fun _ => rfl
    refine stays_get.bind fun m => ?_
    split
    · exact stays_modify fun m => grows_of_prefix rfl rfl (by rw [hlayers])
    · exact stays_throw _
  | addCompatibleLayer q layer =>
    refine grows_modifyPlane q fun p => ?_
    split <;> exact ⟨rfl, fun _ h => h⟩
  | requirePrimary require => exact fun m => hsame rfl rfl rfl
  | setCommitCost ticks => exact fun m => hsame rfl rfl rfl
  | advance ticks => exact fun m => hsame rfl rfl rfl
  | failNextCommit errno => exact fun m => hsame rfl rfl rfl

theorem grows_after {call : Call} (hnames : call.NamesNew) (m : Mock) : m.Grows (call.after m) :=
  (grows_perform hnames m).leftBy

def madeBy (calls : List Call) : Mock := calls.foldl (fun m call => call.after m) empty

theorem wellFormed_madeBy {calls : List Call} (hnames : ∀ call ∈ calls, call.NamesNew) :
    (madeBy calls).WellFormed := by
  have hgrows : ∀ m : Mock, m.Grows (calls.foldl (fun m call => call.after m) m) := by
    induction calls with
    | nil => exact refl_of Grows
    | cons call calls ih =>
      obtain ⟨hcall, hcalls⟩ := List.forall_mem_cons.mp hnames
      exact fun m => trans_of Grows (grows_after hcall m) (ih hcalls _)
  exact (hgrows empty).wellFormed wellFormed_empty

theorem grows_applyWrite (m : Mock) (w : Write) : m.Grows (m.applyWrite w) := by
  unfold applyWrite
  split
  · exact m.grows_modify (fun p => p.keeps_setValue _ _) _
  · exact refl_of Grows m

/-- A commit adds to the counters and writes values, and the objects stay as they are. -/
theorem grows_commit (m : Mock) (r : Request) (flags : CommitFlags) :
    m.Grows (Kernel.commit m r flags).2 := by
  have hcount : m.Grows (m.countCommit flags) := grows_of_prefix rfl rfl List.prefix_rfl
  -- Induction on the writes of the request, each of which keeps the objects.
  have hwrites : ∀ (ws : List Write) (m' : Mock), m.Grows m' → m.Grows (ws.foldl applyWrite m') := by
    intro ws
    induction ws with
    | nil => exact fun _ h => h
    | cons w ws ih => exact fun m' h => ih _ (trans_of Grows h (m'.grows_applyWrite w))
  show m.Grows (m.commit r flags).2
  simp only [commit]
  -- An injected failure, a refusal, a test and a real commit.
  split
  · exact grows_of_prefix rfl rfl List.prefix_rfl
  · split
    · exact hcount
    · simp only
      split
      · exact hcount
      · exact hwrites _ _ hcount

/-- Asking a driver is only commits and readings of the clock. -/
theorem grows_asks {flags : CommitFlags} {m m' : Mock} (h : Kernel.Asks flags m m') : m.Grows m' := by
  cases h with
  | rest => exact refl_of Grows m
  | now => exact refl_of Grows m
  | test r =>
    -- A test is a commit for each interruption and one for the answer.
    fun_induction Kernel.test m r flags with
    | case1 m hnever => exact refl_of Grows m
    | case2 m n hbound m₁ hreply =>
      have hcommit := m.grows_commit r flags.forTest
      rwa [hreply] at hcommit
    | case3 m n hbound e m₁ hreply htransient ih =>
      have hcommit := m.grows_commit r flags.forTest
      rw [hreply] at hcommit
      exact trans_of Grows hcommit ih
    | case4 m n hbound e m₁ hreply hfinal =>
      have hcommit := m.grows_commit r flags.forTest
      rwa [hreply] at hcommit

end Mock
end Scanout
