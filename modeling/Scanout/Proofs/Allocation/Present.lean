import Scanout.Proofs.Device.Mounted

namespace Scanout

open Mock (objectId propertyTag fbIndex crtcIndex basicProperties)

section Writes

variable {m : Mock} (hm : m.WellFormed) (hids : m.DistinctIds) {p : Plane}
  (hp : ∀ descriptor ∈ p.descriptors, descriptor ∈ m.properties)
include hm hids hp

theorem Plane.property_writeOf? {name basic : String} {v : UInt64} {w : Write}
    (hw : p.writeOf? name v = some w) {i : Nat} (hi : basicProperties[i]? = some basic) :
    w.property = objectId i propertyTag ↔ name = basic := by
  obtain ⟨d, hd, rfl⟩ := Option.map_eq_some_iff.mp hw
  obtain ⟨hmem, rfl⟩ := descriptor?_spec hd
  exact (hm.name_eq_iff hids (hp d hmem) hi).symm

theorem Plane.exists_writeOf? {w : WellKnown} (hw : (p.descriptor? w.name).isSome) (v : UInt64)
    {i : Nat} (hi : basicProperties[i]? = some w.name) :
    ∃ write, p.writeOf? w.name v = some write ∧ write.object = p.id ∧
      write.property = objectId i propertyTag ∧ write.value = v := by
  obtain ⟨d, hd⟩ := Option.isSome_iff_exists.mp hw
  have hwrite : p.writeOf? w.name v = some ⟨p.id, d.id, v⟩ := by rw [writeOf?, hd, Option.map_some]
  exact ⟨_, hwrite, rfl, (property_writeOf? hm hids hp hwrite hi).mpr rfl, rfl⟩

theorem Plane.value?_disabledWrites (hstops : p.Stops) {w : WellKnown} (hw : w ∈ [.fbId, .crtcId])
    {i : Nat} (hi : basicProperties[i]? = some w.name) :
    Request.value? ⟨p.disabledWrites⟩ p.id (objectId i propertyTag) = some 0 := by
  obtain ⟨write, hwrite, hobject, hproperty, -⟩ := exists_writeOf? hm hids hp (hstops w hw) 0 hi
  obtain ⟨last, hlast, -, -, hvalue⟩ := Request.exists_last (r := ⟨p.disabledWrites⟩)
    ⟨write, List.mem_flatMap.mpr ⟨w, hw, Option.mem_toList.mpr hwrite⟩, hobject, hproperty⟩
  obtain ⟨known, -, hknown⟩ := List.mem_flatMap.mp hlast
  obtain ⟨d, -, rfl⟩ := Option.map_eq_some_iff.mp (Option.mem_toList.mp hknown)
  exact hvalue

variable {l : Layer} (crtc : UInt32) (htakes : p.Takes l)
include htakes

/-- The pipe is what was written last to its property: the layer has none of that name. -/
theorem Plane.value?_crtc (hpipe : ∀ e ∈ l.properties.entries, e.name ≠ WellKnown.crtcId.name) :
    Request.value? ⟨p.layerWrites l crtc⟩ p.id (objectId crtcIndex propertyTag) =
      some crtc.toUInt64 := by
  have hi : basicProperties[crtcIndex]? = some WellKnown.crtcId.name := rfl
  obtain ⟨write, hwrite, hobject, hproperty, hvalue⟩ :=
    exists_writeOf? hm hids hp htakes.1 crtc.toUInt64 hi
  -- The last write to the property counts, and it is the pipe's or one of the layer's.
  obtain ⟨last, hmem, -, hlast, hvalue'⟩ := Request.exists_last (r := ⟨p.layerWrites l crtc⟩)
    ⟨write, List.mem_append_left _ (Option.mem_toList.mpr hwrite), hobject, hproperty⟩
  rcases List.mem_append.mp hmem with hmem | hmem
  · obtain rfl := Option.some.inj (hwrite.symm.trans (Option.mem_toList.mp hmem))
    rw [hvalue', hvalue]
  · -- No property of the layer has the name of the pipe.
    obtain ⟨e, he, hentry⟩ := List.mem_flatMap.mp hmem
    unfold entryWrites at hentry
    split at hentry
    · cases hentry
    · have hname := (property_writeOf? hm hids hp (Option.mem_toList.mp hentry) hi).mp hlast
      exact absurd hname (hpipe e he)

/-- The framebuffer that counts comes from a property of the layer with its name. -/
theorem Plane.value?_framebuffer (hnames : l.NamesFb) :
    ∃ e ∈ l.properties.entries, e.name = WellKnown.fbId.name ∧
      Request.value? ⟨p.layerWrites l crtc⟩ p.id (objectId fbIndex propertyTag) = some e.value := by
  have hi : basicProperties[fbIndex]? = some WellKnown.fbId.name := rfl
  obtain ⟨e₀, he₀, hname₀⟩ := hnames
  have hzpos : ∀ e : Property.Entry, e.name = WellKnown.fbId.name → e.name ≠ WellKnown.zpos.name := by
    intro e hname
    rw [hname]
    decide
  -- The layer goes with the plane, which must therefore have the property.
  have hsome : (p.descriptor? WellKnown.fbId.name).isSome := by
    rcases p.isSome_or_of_admits (htakes.2 e₀ he₀ (hzpos e₀ hname₀)) with hsome | hharmless
    · rwa [hname₀] at hsome
    · rw [hname₀] at hharmless
      cases hharmless
  -- So there is a write, and the last one to this property counts, which again comes from a
  -- property of the layer with this name.
  obtain ⟨write, hwrite, hobject, hproperty, -⟩ := exists_writeOf? hm hids hp hsome e₀.value hi
  have hmem₀ : write ∈ p.layerWrites l crtc := by
    refine List.mem_append_right _ (List.mem_flatMap.mpr ⟨e₀, he₀, ?_⟩)
    rw [entryWrites, if_neg (hzpos e₀ hname₀), hname₀]
    exact Option.mem_toList.mpr hwrite
  obtain ⟨last, hmem, -, hlast, hvalue⟩ := Request.exists_last (r := ⟨p.layerWrites l crtc⟩)
    ⟨write, hmem₀, hobject, hproperty⟩
  rcases List.mem_append.mp hmem with hmem | hmem
  -- The write of the pipe is to another property.
  · have hname := (property_writeOf? hm hids hp (Option.mem_toList.mp hmem) hi).mp hlast
    exact absurd hname (by decide)
  · obtain ⟨e, he, hentry⟩ := List.mem_flatMap.mp hmem
    unfold entryWrites at hentry
    split at hentry
    · cases hentry
    · have hwritten := Option.mem_toList.mp hentry
      have hname := (property_writeOf? hm hids hp hwritten hi).mp hlast
      obtain ⟨d, -, rfl⟩ := Option.map_eq_some_iff.mp hwritten
      exact ⟨e, he, hname, hvalue⟩

end Writes

namespace Device

variable {d d' : Device Mock}

structure Sets (r : Request) (q : UInt32) (fb crtc : UInt64) : Prop where
  fb : r.value? q (objectId fbIndex propertyTag) = some fb
  crtc : r.value? q (objectId crtcIndex propertyTag) = some crtc

/-- An empty plane gets neither framebuffer nor pipe. A plane that shows a layer gets a pipe, and no
framebuffer but one that was made for this layer. -/
def Stages (d : Device Mock) (r : Request) (p : Plane) : Prop :=
  ∃ fb crtc, Sets r p.id fb crtc ∧ (p.layer = none → fb = 0 ∧ crtc = 0) ∧
    ∀ id, p.layer = some id → crtc ≠ 0 ∧ (fb = 0 ∨ d.session.kernel.fbLayer? fb = some id)

theorem Mounted.stages (hd : d.Mounted) (hids : d.session.kernel.DistinctIds) {p : Plane}
    (hp : p ∈ d.planes) (hsuits : d.Suits p)
    (hnames : ∀ id l, d.layer? id = some l → l.plane.isSome → l.NamesFb) :
    d.Stages ⟨d.planeWrites p⟩ p := by
  have hwell := hd.reachable.wellFormed
  obtain ⟨-, hdescriptors⟩ := hd.planes p hp
  unfold Suits at hsuits
  unfold Stages planeWrites
  cases hlayer : p.layer with
  | none =>
    rw [hlayer] at hsuits
    refine ⟨0, 0, ⟨?_, ?_⟩, fun _ => ⟨rfl, rfl⟩, nofun⟩
    · exact Plane.value?_disabledWrites (w := .fbId) hd.kernel hids hdescriptors hsuits (by simp) rfl
    · exact Plane.value?_disabledWrites (w := .crtcId) hd.kernel hids hdescriptors hsuits (by simp) rfl
  | some id =>
    rw [hlayer] at hsuits
    -- The layer was given a framebuffer of its own, and its output has a pipe.
    obtain ⟨l, hl, htakes⟩ := hsuits
    obtain ⟨l', hl', hplane⟩ := layer_of_plane hwell.wiring hp hlayer
    obtain rfl := Option.some.inj (hl.symm.trans hl')
    obtain ⟨out, hout, -⟩ := output_of_layer hwell hl
    have howns := hd.layers id l hl
    simp only [hl, hout]
    obtain ⟨e, he, hname, hfb⟩ := Plane.value?_framebuffer hd.kernel hids hdescriptors
      out.crtc htakes (hnames id l hl (by simp [hplane]))
    have hcrtc := Plane.value?_crtc hd.kernel hids hdescriptors out.crtc htakes howns.pipe
    refine ⟨e.value, out.crtc.toUInt64, ⟨hfb, hcrtc⟩, nofun, fun id' hid' => ?_⟩
    obtain rfl := Option.some.inj hid'
    -- A pipe of zero would stand for none.
    refine ⟨fun hzero => hd.outputs _ out hout ?_, howns.framebuffer e he hname⟩
    have hzero : out.crtc.toUInt64 = (0 : UInt32).toUInt64 := hzero
    exact UInt32.toUInt64_inj.mp hzero

/-- What is staged for one plane counts, whatever is staged for the others and was staged before. -/
theorem Stages.all (hd : d.WellFormed) {p : Plane} (hp : p ∈ d.planes)
    (h : d.Stages ⟨d.planeWrites p⟩ p) (entry : Request) :
    d.Stages (entry.append (d.planes.flatMap d.planeWrites)) p := by
  obtain ⟨fb, crtc, ⟨hfb, hcrtc⟩, hlayer⟩ := h
  have hnodup : (d.planes.map Plane.id).Nodup := hd.wiring.ids_nodup
  have hvalue := Request.value?_flatMap Plane.id (fun p _ => d.object_planeWrites p) hnodup hp
  refine ⟨fb, crtc, ⟨?_, ?_⟩, hlayer⟩
  · rw [Request.value?_append, hvalue, hfb, Option.some_or]
  · rw [Request.value?_append, hvalue, hcrtc, Option.some_or]

section Committed

variable (hd : d.Mounted) (hids : d.session.kernel.DistinctIds)
  (hregistered : ∀ p ∈ d.session.kernel.planes, (d.plane? p.id).isSome) {r : Request}
include hd hids hregistered

/-- The driver accepts a request that only switches planes off, all of them. -/
theorem Mounted.validate_dark (hdark : ∀ p ∈ d.planes, p.layer = none)
    (hwrites : ∀ w ∈ r.writes, ∃ p ∈ d.planes, w ∈ p.disabledWrites)
    (hstages : ∀ p ∈ d.planes, d.Stages r p) : d.session.kernel.validate r = .ok () := by
  rw [Mock.validate_eq_ok_iff]
  -- Every write is in order, and no plane is lit.
  refine ⟨fun w hw => ?_, [], Mock.litPlanes_eq_nil fun p hp => ?_, by simp⟩
  · -- Each write is for a basic property of a plane that exists.
    obtain ⟨p, hp, hmem⟩ := hwrites w hw
    obtain ⟨hplane, hdescriptors⟩ := hd.planes p hp
    rw [← p.object_disabledWrites w hmem] at hplane
    obtain ⟨known, hknown, hwrite⟩ := List.mem_flatMap.mp hmem
    have hbasic : ∃ i : Nat, basicProperties[i]? = some known.name := by
      rcases List.mem_cons.mp hknown with rfl | hknown
      · exact ⟨fbIndex, rfl⟩
      · rw [List.mem_singleton.mp hknown]
        exact ⟨crtcIndex, rfl⟩
    obtain ⟨i, hi⟩ := hbasic
    have hproperty := Plane.property_writeOf? hd.kernel hids hdescriptors
      (Option.mem_toList.mp hwrite) hi
    exact hd.kernel.checkWrite_eq_ok hplane hi (hproperty.mpr rfl)
  · -- No plane is lit, whatever the driver has shown before, since the device knows all planes.
    obtain ⟨p', hp'⟩ := Option.isSome_iff_exists.mp (hregistered p hp)
    have hmem : p' ∈ d.planes := List.mem_of_find?_eq_some hp'
    have hid : p'.id = p.id := by simpa using List.find?_some hp'
    obtain ⟨fb, crtc, ⟨hfb, hcrtc⟩, hempty, -⟩ := hstages p' hmem
    obtain ⟨rfl, rfl⟩ := hempty (hdark p' hmem)
    rw [hid] at hfb hcrtc
    simp [Mock.valueAfter, hfb, hcrtc]

omit hids in
/-- Once a request that stages the links is committed, the driver shows on every plane the layer that
is linked to it. -/
theorem Mounted.planeLayer?_foldl (hvalid : d.session.kernel.validate r = .ok ())
    (hstages : ∀ p ∈ d.planes, d.Stages r p) (flags : CommitFlags) (q : UInt32) :
    (r.writes.foldl Mock.applyWrite (d.session.kernel.countCommit flags)).planeLayer? q =
      (d.plane? q).bind Plane.layer := by
  have hfbIndex : ∀ x, (d.session.kernel.countCommit flags).propertyIndex? x = some fbIndex ↔
      x = objectId fbIndex propertyTag := hd.kernel.propertyIndex?_eq_iff rfl
  rw [Mock.planeLayer?_eq, Mock.fbLayer?_foldl, Mock.value?_foldl hfbIndex]
  show ((d.session.kernel.value? q fbIndex).map _).bind d.session.kernel.fbLayer? = _
  cases hp : d.plane? q with
  | none =>
    -- No plane of the driver has this id.
    have hunknown : d.session.kernel.plane? q = none := by
      -- The plane shows what was last written, or what it showed before.
      rw [Mock.plane?, List.find?_eq_none]
      intro p hp' hid
      have hknown := hregistered p hp'
      rw [of_decide_eq_true hid, hp] at hknown
      cases hknown
    simp [Mock.value?, hunknown]
  | some p =>
    have hmem : p ∈ d.planes := List.mem_of_find?_eq_some hp
    obtain rfl : p.id = q := by simpa using List.find?_some hp
    obtain ⟨pl, hpl⟩ := Option.isSome_iff_exists.mp (hd.planes p hmem).1
    -- What is staged for the plane decides, since every known plane is written to.
    obtain ⟨fb, crtc, ⟨hfb, hcrtc⟩, hempty, hshown⟩ := hstages p hmem
    have hvalue := hd.kernel.isSome_value? (hd.planes p hmem).1 (show fbIndex < _ by decide)
    obtain ⟨v, hv⟩ := Option.isSome_iff_exists.mp hvalue
    rw [hv, Option.map_some, Option.bind_some, Option.bind_some]
    -- So the earlier value is of no account.
    have hset : (Request.value? ⟨r.writes⟩ p.id (objectId fbIndex propertyTag)).getD v = fb := by
      rw [hfb, Option.getD_some]
    rw [hset]
    cases hlayer : p.layer with
    | none =>
      obtain ⟨rfl, -⟩ := hempty hlayer
      rfl
    | some id =>
      -- The driver has accepted the pipe, so there is a framebuffer.
      obtain ⟨hcrtcSet, hown⟩ := hshown id hlayer
      obtain ⟨-, lit, hlit, -⟩ := (Mock.validate_eq_ok_iff _ r).mp hvalid
      have hboth := Mock.both_of_litPlanes hlit (List.mem_of_find?_eq_some hpl)
      have hid : pl.id = p.id := by simpa using List.find?_some hpl
      simp only [Mock.valueAfter, hid, hfb, hcrtc, Option.some_or, Option.getD_some] at hboth
      rcases hown with hzero | hown
      · exact absurd (hboth.mp hzero) hcrtcSet
      · exact hown

end Committed

theorem commit_eq_ok {r : Request} {flags : CommitFlags} {m : Mock}
    (h : Kernel.commit d.session.kernel r flags = (.ok (), m)) :
    commit r flags d = .ok () { d with session := { d.session with kernel := m } } := by
  have hreply : ∀ {α : Type} (f : Device Mock → α × Device Mock),
      (modifyGet f : DeviceM Mock α) d = .ok (f d).1 (f d).2 := fun _ => rfl
  unfold commit
  show EStateM.bind _ _ d = _
  rw [EStateM.bind, hreply]
  simp only [h]
  rfl

theorem Run.mounted {d₀ : Device Mock} {ops : List (Operation Mock)}
    (h : Run (fun d op => d.Permits op ∧ d.Respects op) d₀ ops d) (hd₀ : d₀.Mounted) : d.Mounted := by
  induction h with
  | nil => exact hd₀
  | cons hstep _ ih => exact ih (hd₀.after hstep.1 hstep.2)

section Applied

open Allocation

variable (hd : d.Mounted) (hd' : d'.Mounted) {o : OutputId}
  (hsingle : ∀ o', (d.output? o').isSome → o' = o) {options : ApplyOptions} {r : Request}
  (happly : Frame.apply o {} options ⟨d, .empty⟩ = .ok () ⟨d', r⟩)
  (happlied : Applied {} o (fun _ r => d.session.kernel.validate r = .ok ()) .empty r d d')
include hd hd' hsingle happlied

include happly in
/-- Every layer that an apply leaves on a plane names a framebuffer. -/
theorem Mounted.namesFb_of_applied {id : LayerId} {l : Layer} (hl : d'.layer? id = some l)
    (hshown : l.plane.isSome) : l.NamesFb := by
  have hbags : d.BagsWellFormed := fun id l hl => hd.reachable.wellFormed_properties hl
  -- No output comes with an apply, so the layer belongs to the one there is.
  have hchanges : Changes _ (fun _ _ _ => True) d d' := (ensures_of_eq_ok happly).mp
    (changes_apply (fun _ _ _ _ => trivial) (fun _ _ => trivial) o options ⟨d, .empty⟩)
  -- Both the output and its layers were there before.
  obtain ⟨out', hout', -⟩ := output_of_layer hd'.reachable.wellFormed hl
  obtain ⟨out, hout, -⟩ := hchanges.exists_output hout'
  have ho := hsingle _ (Option.isSome_of_eq_some hout)
  exact happlied.namesFb hd.accounted hbags hl ho hshown

include happly in
/-- What an apply has staged says what the links say. -/
theorem Mounted.stages_of_applied (hids : d'.session.kernel.DistinctIds) :
    ∀ p ∈ d'.planes, d'.Stages r p := by
  have hwell := hd.reachable.wellFormed
  obtain ⟨hwrites, hsuits⟩ := happlied.writes hwell (ownedBy_of_single hwell hsingle)
  have hnames : ∀ id l, d'.layer? id = some l → l.plane.isSome → l.NamesFb := fun _ _ hl hshown =>
    hd.namesFb_of_applied hd' hsingle happly happlied hl hshown
  intro p hp
  -- Either all of the request is from the links, or it comes after the zeros.
  have hplane := hd'.stages hids hp (hsuits p hp) hnames
  rcases hwrites with hr | hr
  · rw [hr]
    exact hplane.all hd'.reachable.wellFormed hp _
  · rw [hr]
    exact hplane.all hd'.reachable.wellFormed hp _

/-- The driver accepts what an apply has staged: it has accepted the like in a test, or there is nothing
to show. -/
theorem Mounted.validate_of_applied (hinjected : d.session.kernel.injected = [])
    (hregistered : ∀ p ∈ d'.session.kernel.planes, (d'.plane? p.id).isSome)
    (hids : d'.session.kernel.DistinctIds) (hstages : ∀ p ∈ d'.planes, d'.Stages r p) :
    d'.session.kernel.validate r = .ok () := by
  have hwell := hd.reachable.wellFormed
  have howned := ownedBy_of_single hwell hsingle
  have hnotes := Mock.notes hinjected {}
  have hasked : d.session.kernel.Asked d.session.kernel := ⟨_, _, rfl⟩
  -- One of the tests passed with the same values, unless no plane has a layer.
  rcases happlied.passed hwell howned hnotes hasked with ⟨tested, hpassed, hsame⟩ | hdark
  · rw [(happlied.kernel hnotes hasked).validate]
    exact Mock.validate_congr (fun q x => (hsame q x).symm) hpassed
  · refine hd'.validate_dark hids hregistered hdark (fun w hw => ?_) hstages
    -- With no layer shown, all writes switch planes off.
    have hoff : ∀ w ∈ d'.planes.flatMap d'.planeWrites, ∃ p ∈ d'.planes, w ∈ p.disabledWrites := by
      intro w hw
      obtain ⟨p, hp, hmem⟩ := List.mem_flatMap.mp hw
      rw [planeWrites, hdark p hp] at hmem
      exact ⟨p, hp, hmem⟩
    rcases (happlied.writes hwell howned).1 with hr | hr
    · rw [hr] at hw
      exact hoff w hw
    · rw [hr] at hw
      rcases List.mem_append.mp hw with hw | hw
      · exact List.mem_flatMap.mp hw
      · exact hoff w hw

end Applied

open Allocation in
/-- Take a mock driver on which no property was given the name of a basic one, and on which there are ids for
all properties. Take a device on it, after any run in which layers were given framebuffers made for them
only. Let the device have a single output and all planes of the driver, and let no failure be planned.
Whenever an apply succeeds, the commit of what it has staged succeeds too, and after it the driver shows
on every plane the layer that is linked to it. -/
theorem planeLayer?_of_prepare {calls : List Mock.Call} (hcalls : ∀ call ∈ calls, call.NamesNew)
    {d₀ : Device Mock} (hcreate : create (Mock.madeBy calls) = .ok d₀) {ops : List (Operation Mock)}
    (hrun : Run (fun d op => d.Permits op ∧ d.Respects op) d₀ ops d) {o : OutputId}
    (hsingle : ∀ o', (d.output? o').isSome → o' = o)
    (hregistered : ∀ p ∈ d.session.kernel.planes, (d.plane? p.id).isSome)
    (hinjected : d.session.kernel.injected = [])
    (few : d.session.kernel.properties.length ≤ 0x1000000) {options : ApplyOptions} {r : Request}
    (hprepare : prepare o {} options d = .ok r d') :
    ∃ d'', commit r {} d' = .ok () d'' ∧ present o {} options d = .ok () d'' ∧
      ∀ q, d''.session.kernel.planeLayer? q = (d''.plane? q).bind Plane.layer := by
  have hd := hrun.mounted (mounted_create (Mock.wellFormed_madeBy hcalls) hcreate)
  -- The request was prepared by an apply that succeeded.
  have happly : Frame.apply o {} options ⟨d, .empty⟩ = .ok () ⟨d', r⟩ := by
    unfold prepare at hprepare
    split at hprepare
    · rename_i happly
      cases hprepare
      exact happly
    · cases hprepare
  -- The device is mounted before the apply and after it.
  have hd' : d'.Mounted := by
    have hafter : d.after (.apply o .empty {} options) = d' := by rw [after_apply, happly]; rfl
    have hmounted : (d.after (.apply o .empty {} options)).Mounted := hd.after trivial trivial
    rwa [hafter] at hmounted
  have hnotes := Mock.notes hinjected {}
  have hasked : d.session.kernel.Asked d.session.kernel := ⟨_, _, rfl⟩
  have happlied : Applied {} o (fun _ r => d.session.kernel.validate r = .ok ()) .empty r d d' :=
    (ensures_of_eq_ok happly).mp (apply_cases hd.reachable.wellFormed hnotes hasked options .empty)
  -- In between the driver was only asked.
  obtain ⟨hplanes, hproperties, hinjected'⟩ := (happlied.kernel hnotes hasked).fixed
  have hregistered' : ∀ p ∈ d'.session.kernel.planes, (d'.plane? p.id).isSome := by
    intro p hp
    rw [happlied.isSome_plane?]
    exact hregistered p (hplanes ▸ hp)
  -- The bound on the properties keeps their ids apart.
  have hids : d'.session.kernel.DistinctIds := hd'.kernel.distinctIds (hproperties ▸ few)
  rw [hinjected] at hinjected'
  have hstages := hd.stages_of_applied hd' hsingle happly happlied hids
  have hvalid := hd.validate_of_applied hd' hsingle happlied hinjected hregistered' hids hstages
  have hkernel := Mock.commit_eq hinjected' r {}
  -- The driver accepts the request, so the commit is carried out.
  rw [hvalid] at hkernel
  have hcommit := commit_eq_ok hkernel
  refine ⟨_, hcommit, ?_, hd'.planeLayer?_foldl hregistered' hvalid hstages {}⟩
  show EStateM.bind _ _ d = _
  simp only [EStateM.bind, hprepare]
  exact hcommit

def twoPlanes : Device Mock :=
  ⟨{ kernel := Mock.madeBy [.createPlane .primary, .createPlane .overlay] }, {}, [Mock.crtcTag], [], {},
    {}, 0⟩

def twoShown : List (Operation Mock) :=
  let ids : List LayerId := [⟨⟨0, 0⟩⟩, ⟨⟨1, 0⟩⟩]
  [.registerAllPlanes, .createOutput Mock.crtcTag, .createLayer .first, .createLayer .first] ++
    ids.flatMap (fun id =>
      [.drive (Mock.Call.createFb id).after,
        .drive (Mock.Call.addCompatibleLayer (Mock.planeTag + id.index) id).after,
        .setProperty id "FB_ID" (Mock.fbTag + id.index).toUInt64]) ++
    [.apply .first {} {} {}]

/-- In the second frame both layers are still shown where the device has put them. -/
theorem planeLayer?_twoShown : ∃ r d' d'', prepare .first {} {} (twoPlanes.afterAll twoShown) = .ok r d' ∧
    commit r {} d' = .ok () d'' ∧
      ∀ q, d''.session.kernel.planeLayer? q = (d''.plane? q).bind Plane.layer := by
  have hcalls : ∀ call ∈ [Mock.Call.createPlane .primary, .createPlane .overlay], call.NamesNew := by
    simp [Mock.Call.NamesNew]
  -- The run creates two layers, each with a buffer of its own.
  have hrespects : Run Respects twoPlanes twoShown (twoPlanes.afterAll twoShown) :=
    .cons trivial <| .cons trivial <| .cons trivial <| .cons trivial <|
    .cons ⟨.createFb _, trivial, rfl⟩ <| .cons ⟨.addCompatibleLayer _ _, trivial, rfl⟩ <|
    .cons (fun _ => .inr (by decide +kernel)) <|
    .cons ⟨.createFb _, trivial, rfl⟩ <| .cons ⟨.addCompatibleLayer _ _, trivial, rfl⟩ <|
    .cons (fun _ => .inr (by decide +kernel)) <| .cons trivial .nil
  have hpermits : Run Permits twoPlanes twoShown (twoPlanes.afterAll twoShown) :=
    run_afterAll (by decide +kernel)
  have hsingle : ∀ o, ((twoPlanes.afterAll twoShown).output? o).isSome → o = .first := by
    intro o ho
    obtain ⟨out, hout⟩ := Option.isSome_iff_exists.mp ho
    have hslots : (twoPlanes.afterAll twoShown).outputs.slots.map Slot.generation = [0] := by
      decide +kernel
    -- There is one slot of outputs, in its first generation.
    have hslot := congrArg (Option.map Slot.generation) ((Arena.get?_eq_some_iff _ _ _).mp hout)
    rw [← List.getElem?_map, hslots, List.getElem?_singleton] at hslot
    split at hslot
    · rename_i hindex
      have hgeneration : (0 : UInt32) = o.generation := Option.some.inj hslot
      exact OutputId.toHandle_inj.mp (Arena.handle_eq hindex hgeneration.symm)
    · cases hslot
  have hregistered : ∀ p ∈ (twoPlanes.afterAll twoShown).session.kernel.planes,
      ((twoPlanes.afterAll twoShown).plane? p.id).isSome := by decide +kernel
  obtain ⟨r, d', hprepare⟩ : ∃ r d', prepare .first {} {} (twoPlanes.afterAll twoShown) = .ok r d' := by
    have hsucceeded : succeeded (prepare .first {} {} (twoPlanes.afterAll twoShown)) = true := by
      decide +kernel
    cases hrun : prepare .first {} {} (twoPlanes.afterAll twoShown) with
    | ok r d' => exact ⟨r, d', rfl⟩
    | error e d' =>
      rw [hrun] at hsucceeded
      cases hsucceeded
  -- The claim is then that of the general theorem for this run.
  obtain ⟨d'', hcommit, -, hagree⟩ := planeLayer?_of_prepare hcalls rfl
    (hpermits.and hrespects) hsingle hregistered (by decide +kernel) (by decide +kernel) hprepare
  exact ⟨r, d', d'', hprepare, hcommit, hagree⟩

end Device

end Scanout
