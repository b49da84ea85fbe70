import Scanout.Proofs.Allocation.Composition
import Scanout.Proofs.Search.Told

namespace Scanout

variable {σ : Type}

def Event.isBound : Event → Bool
  | .applyBegin .. | .applyEnd .. => true
  | _ => false

theorem Event.isBound_of_not_isMark {e : Event} (h : e.isMark = false) : e.isBound = false := by
  cases e with
  | applyBegin | applyEnd => cases h
  | _ => rfl

namespace Device

open Allocation

def shownOn (d : Device σ) (o : OutputId) (p : Plane) : Option (UInt32 × LayerId) :=
  if isHeldBy d o p then p.layer.map fun id => (p.id, id) else none

def shown (d : Device σ) (o : OutputId) : List (UInt32 × LayerId) := d.planes.filterMap (d.shownOn o)

def ordinaryShown (d : Device σ) (o : OutputId) : Nat :=
  (d.shown o).countP fun x => (d.output? o).any fun out => out.compositionLayer ≠ some x.2

theorem id_of_shownOn {d : Device σ} {o : OutputId} {p : Plane} {x : UInt32 × LayerId}
    (h : d.shownOn o p = some x) : p.id = x.1 := by
  unfold shownOn at h
  split at h
  · obtain ⟨_, -, rfl⟩ := Option.map_eq_some_iff.mp h
    rfl
  · cases h

/-- A plane shows a layer of the output exactly if the wiring has the link. -/
theorem shownOn_eq_some_iff {d : Device σ} (hd : d.WellFormed) {o : OutputId} {p : Plane}
    (hp : p ∈ d.planes) {x : UInt32 × LayerId} :
    d.shownOn o p = some x ↔ p.id = x.1 ∧ x ∈ d.wiring.links o := by
  unfold shownOn
  constructor
  · intro hx
    -- From the plane, if it is held by the output.
    split at hx
    · rename_i hheld
      obtain ⟨id, hid, rfl⟩ := Option.map_eq_some_iff.mp hx
      obtain ⟨l, hl, hq⟩ := layer_of_plane hd.wiring hp hid
      rw [isHeldBy, hid, Option.bind_some, hl, Option.any_some, decide_eq_true_eq] at hheld
      exact ⟨rfl, mem_links_iff.mpr ⟨l, hl, hheld, hq⟩⟩
    · cases hx
  · rintro ⟨hq, hx⟩
    obtain ⟨p', hp', hq', hlayer⟩ := plane_of_link hd.wiring hx
    -- No other plane has the id.
    obtain rfl := hd.wiring.plane_eq hp' hp (hq'.trans hq.symm)
    obtain ⟨l, hl, houtput, -⟩ := mem_links_iff.mp hx
    have hheld : isHeldBy d o p' = true := by
      rw [isHeldBy, hlayer, Option.bind_some, hl, Option.any_some, decide_eq_true_eq]
      exact houtput
    rw [if_pos hheld, hlayer, Option.map_some, hq]

theorem mem_shown_iff {d : Device σ} (hd : d.WellFormed) {o : OutputId} {x : UInt32 × LayerId} :
    x ∈ d.shown o ↔ x ∈ d.wiring.links o := by
  rw [shown, List.mem_filterMap]
  constructor
  · rintro ⟨p, hp, hx⟩
    exact ((shownOn_eq_some_iff hd hp).mp hx).2
  · intro hx
    obtain ⟨p, hp, hq, -⟩ := plane_of_link hd.wiring hx
    exact ⟨p, hp, (shownOn_eq_some_iff hd hp).mpr ⟨hq, hx⟩⟩

/-- No plane is listed twice. -/
theorem shown_nodup {d : Device σ} (hd : d.WellFormed) (o : OutputId) : (d.shown o).Nodup := by
  have hids : d.planes.Pairwise fun p q => p.id ≠ q.id := List.pairwise_map.mp hd.wiring.ids_nodup
  refine List.pairwise_filterMap.mpr (hids.imp fun hne x hx y hy heq => hne ?_)
  rw [id_of_shownOn hx, id_of_shownOn hy, heq]

end Device

namespace Allocation

open Device

section Layouts

variable {d : Device σ} {o : OutputId} {s : Search.Scene} {path : Search.Path}
  (h : Layout d o s path) (hd : d.WellFormed)
include h

/-- The path visits the planes of the device. -/
theorem Layout.ids : path.reverse.map (fun c => c.plane.id) = d.planes.map Plane.id := by
  have hids := congrArg (List.map Plane.id) h.planes
  rwa [List.map_map, List.map_map] at hids

include hd

/-- What an output shows is what the path chose, in the same order. -/
theorem Layout.shown_eq : d.shown o = assignments path := by
  have hnodup : (path.reverse.map fun c => c.plane.id).Nodup := h.ids ▸ hd.wiring.ids_nodup
  -- Both lists tell what is on the plane with a given id, for the same ids.
  let on := fun q => (d.plane? q).bind (d.shownOn o)
  have hplanes : ∀ p ∈ d.planes, d.shownOn o p = on p.id := fun p hp => by
    simp only [on, plane?_eq_some hd.wiring hp, Option.bind_some]
  have hpath : ∀ c ∈ path.reverse, on c.plane.id = c.layer.map fun id => (c.plane.id, id) := by
    intro c hc
    obtain ⟨p, hp, hid⟩ : ∃ p ∈ d.planes, p.id = c.plane.id := by
      apply List.mem_map.mp
      rw [← h.ids]
      exact List.mem_map_of_mem hc
    rw [← hid, ← hplanes p hp]
    refine Option.ext fun x => ?_
    rw [shownOn_eq_some_iff hd hp, h.links, Set.mem_ofPred_eq, Search.mem_assignments,
      Option.map_eq_some_iff]
    constructor
    -- No two choices are for one plane.
    · rintro ⟨hq, c', hc', hq', hlayer⟩
      have hsame : c' = c := List.inj_on_of_nodup_map hnodup (List.mem_reverse.mpr hc') hc
        (hq'.trans (hq.symm.trans hid))
      subst hsame
      exact ⟨x.2, hlayer, Prod.ext hq rfl⟩
    · rintro ⟨id, hlayer, rfl⟩
      exact ⟨rfl, c, List.mem_reverse.mp hc, hid.symm, hlayer⟩
  calc d.shown o
    _ = d.planes.filterMap fun p => on p.id := List.filterMap_congr hplanes
    _ = (d.planes.map Plane.id).filterMap on := by simp only [List.filterMap_map, Function.comp_def]
    _ = (path.reverse.map fun c => c.plane.id).filterMap on := by rw [h.ids]
    _ = path.reverse.filterMap fun c => on c.plane.id := by
      simp only [List.filterMap_map, Function.comp_def]
    _ = assignments path := List.filterMap_congr hpath

/-- The score of the path is the number of layers that are shown now. -/
theorem Layout.ordinaryShown_eq : d.ordinaryShown o = s.score path := by
  obtain ⟨out, hout, hmembers⟩ := h.members
  have hcomposition : out.compositionLayer = s.output.compositionLayer :=
    (congrArg Prod.snd hmembers).symm
  rw [ordinaryShown, h.shown_eq hd, hout, assignments, List.countP_filterMap, List.countP_reverse,
    Search.Scene.score]
  refine List.countP_congr fun c _ => ?_
  cases c.layer with
  | none => rfl
  | some id => simp [Search.Scene.isComposition, hcomposition]

end Layouts

end Allocation

namespace Device

def Aside (d d' : Device σ) : Prop := Session.Tells [] [] [] d.session d'.session

instance : IsPreorder (Device σ) Aside where
  refl d := refl_of (Session.Tells [] [] []) d.session
  trans _ _ _ h h' := trans_of (Session.Tells [] [] []) h h'

structure Lingers (d d' : Device σ) : Prop extends Keeps d d' where
  aside : Aside d d'

instance : IsPreorder (Device σ) Lingers where
  refl d := ⟨refl_of Keeps d, refl_of Aside d⟩
  trans _ _ _ h h' := ⟨trans_of Keeps h.toKeeps h'.toKeeps, trans_of Aside h.aside h'.aside⟩

theorem aside_of_session {d d' : Device σ} (h : d'.session = d.session) : Aside d d' :=
  Session.tells_of_trace (congrArg Session.trace h)

theorem lingers_withLayer {d : Device σ} {id : LayerId} {f : Layer → Layer}
    (hplace : ∀ l, d.layer? id = some l → (f l).place = l.place)
    (hlook : ∀ l, d.layer? id = some l → (f l).look = l.look) : Lingers d (d.withLayer id f) :=
  ⟨(quiet_withLayer hplace hlook).toKeeps, aside_of_session rfl⟩

theorem lingers_withOutput {d : Device σ} {o : OutputId} {f : Output → Output}
    (hmembers : ∀ out, d.output? o = some out → (f out).members = out.members)
    (hchanged : ∀ out, d.output? o = some out → (f out).layersChanged = out.layersChanged) :
    Lingers d (d.withOutput o f) :=
  ⟨(quiet_withOutput hmembers hchanged).toKeeps, aside_of_session rfl⟩

theorem lingers_onSession {α : Type} {x : SessionM σ α} (hx : Stays (Session.Tells [] [] []) x) :
    Stays Lingers (onSession x) := by
  intro d
  rw [ensures_onSession]
  exact (hx d.session).imp fun session h => ⟨keeps_session d session, h⟩

theorem lingers_log (severity : Severity) (note : Note) : Stays Lingers (log (σ := σ) severity note) :=
  lingers_onSession (Session.tells_log severity note)

theorem aside_log (severity : Severity) (note : Note) : Stays Aside (log (σ := σ) severity note) :=
  (lingers_log severity note).mono fun _ _ h => h.aside

end Device

namespace Allocation

open Device

theorem lingers_updatePriorities : Stays Lingers (updatePriorities (σ := σ)) := by
  refine stays_updatePriorities (fun _ => ⟨?_, aside_of_session rfl⟩) fun _ _ _ => ?_
  · exact (quiet_mapLayers _ (fun l => l.place_countUpdate _) fun l => l.look_countUpdate _).toKeeps
  · exact lingers_onSession fun s => (refl_of (Session.Tells [] [] []) s).told rfl

theorem lingers_updateOrder (o : OutputId) : Stays Lingers (updateOrder (σ := σ) o) := by
  have haside : Stays Aside (updateOrder (σ := σ) o) :=
    stays_updateOrder fun _ _ _ _ _ => aside_of_session rfl
  exact ((quiet_updateOrder o).and haside).mono fun _ _ h => ⟨h.1.toKeeps, h.2⟩

/-- A link that is made is told. -/
theorem assign_tells (o : OutputId) (q : UInt32) (id : LayerId) (d : Device σ) :
    Ensures (assign o q id) d
      (fun _ d' => Session.Tells [] [] [(o, q, id)] d.session d'.session) (fun _ => Aside d) := by
  have hlink : Stays Aside (setLink (σ := σ) q (some id)) :=
    stays_setLink (fun _ _ _ _ => aside_of_session rfl) (fun _ _ _ => aside_of_session rfl) q id
  rw [assign, ensures_bind]
  refine (hlink d).mono (fun _ d' h => ?_) fun _ _ h => h
  rw [ensures_onSession]
  exact h.told (e := .assignment o q id) rfl

theorem assignAll_tells (o : OutputId) (links : List (UInt32 × LayerId)) (d : Device σ) :
    Ensures (links.forM fun (q, id) => assign o q id) d
      (fun _ d' => Session.Tells [] [] (links.map (o, ·)).reverse d.session d'.session)
      (fun _ d' => ∃ made, Session.Tells [] [] made d.session d'.session) := by
  induction links generalizing d with
  -- Induction on the links, each of which tells its own assignment last.
  | nil => exact refl_of Aside d
  | cons x links ih =>
    rw [ensures_forM_cons]
    refine (assign_tells o x.1 x.2 d).mono (fun _ d₁ h₁ => ?_) fun _ d₁ h₁ => ⟨[], h₁⟩
    refine (ih d₁).mono (fun _ d₂ h₂ => ?_) ?_
    · rw [List.map_cons, List.reverse_cons]
      exact h₁.trans h₂
    · rintro _ d₂ ⟨made, h₂⟩
      exact ⟨_, h₁.trans h₂⟩

/-- Of what a search answers the links are told, in their order. -/
theorem connect_tells (o : OutputId) (free : Nat)
    (found : Option Search.Best × List (LayerId × UInt32)) (d : Device σ) :
    Ensures (connect o free found) d
      (fun _ d' => Session.Tells [] []
        (((found.1.map fun b => assignments b.path).getD []).map (o, ·)).reverse d.session d'.session)
      (fun _ d' => ∃ made, Session.Tells [] [] made d.session d'.session) := by
  -- The hints and the messages tell nothing of the kind.
  have hhints : Stays Aside (found.2.forM fun x =>
      (editLayer x.1 fun l => .ok (l.addCandidatePlane x.2) : DeviceM σ Unit)) :=
    stays_forM fun x _ => stays_editBare (fun _ _ _ _ => aside_of_session rfl)
      fun l => l.bare_addCandidatePlane x.2
  simp only [connect, ensures_bind, ensures_get]
  refine (hhints d).mono (fun _ d₁ h₁ => ?_) fun _ d₁ h₁ => ⟨[], h₁⟩
  refine (aside_log _ _ d₁).mono (fun _ d₂ h₂ => ?_) fun _ d₂ h₂ => ⟨[], h₁.trans h₂⟩
  have h₂ : Aside d d₂ := trans_of Aside h₁ h₂
  refine (assignAll_tells o _ d₂).mono (fun _ d₃ h₃ => ?_) ?_
  · have h₃ := h₃.since h₂
    split
    · exact (aside_log _ _ d₃).mono (fun _ d₄ h₄ => h₃.still h₄) fun _ d₄ h₄ => ⟨_, h₃.still h₄⟩
    · exact h₃
  · rintro _ d₃ ⟨made, h₃⟩
    exact ⟨made, h₃.since h₂⟩

variable [Kernel σ] {flags : CommitFlags} {o : OutputId} {d : Device σ}

theorem lingers_prepare : Stays Lingers
    (do updatePriorities; refreshFramebuffers o; updateOrder o : DeviceM σ Bool) := by
  have hrefresh : Stays Lingers (refreshFramebuffers (σ := σ) o) :=
    stays_refreshFramebuffers (fun _ _ _ => lingers_withLayer (fun _ _ => rfl) fun _ _ => rfl)
      lingers_log o
  exact lingers_updatePriorities.bind fun _ => hrefresh.bind fun _ => lingers_updateOrder o

theorem lingers_decideReuse (changed : Bool) :
    Stays (Frame.Within Lingers) (decideReuse (σ := σ) o flags changed) :=
  stays_decideReuse (fun r => lingers_onSession (Session.tells_testCommit r flags)) o changed

omit [Kernel σ] in
theorem lingers_countReuse : Stays Lingers (countReuse (σ := σ) o) :=
  stays_countReuse lingers_log (fun _ _ _ => lingers_withOutput (fun _ _ => rfl) fun _ _ => rfl) o

omit [Kernel σ] in
theorem lingers_resetReuse : Stays Lingers (resetReuse (σ := σ) o) :=
  stays_resetReuse lingers_log (fun _ _ _ => lingers_withOutput (fun _ _ => rfl) fun _ _ => rfl) o

omit [Kernel σ] in
theorem aside_clear : Stays Aside (clear (σ := σ) o) :=
  stays_clear (fun _ _ _ _ => aside_of_session rfl) (fun _ _ _ => aside_of_session rfl) aside_log
    (fun _ => Session.tells_of_trace rfl) o

/-- What a search tells agrees with what it answers. -/
theorem search_tells {out : Output} (hout : d.output? o = some out) (options : ApplyOptions)
    (started : HostTime) (entry : Request) :
    Ensures (search o flags options started) ⟨d, entry⟩
      (fun found f' => ∃ scores choices, Session.Tells scores choices [] d.session f'.device.session ∧
        Search.Agrees scores choices [] found.1)
      (fun _ f' => ∃ scores choices, Session.Tells scores choices [] d.session f'.device.session) := by
  have hstart : Search.Retells d.session [] d.session none :=
    ⟨[], [], refl_of (Session.Tells [] [] []) _, ⟨.nil, rfl, List.Subset.refl _, by simp⟩⟩
  exact search_upholds hout (Search.upkeep_retells _ d.session) hstart entry

omit [Kernel σ] in
/-- Once a search has answered, what is linked is told; the staging after it tells nothing. -/
theorem settle_tells (free : Nat) (found : Option Search.Best × List (LayerId × UInt32)) (f : Frame σ) :
    Ensures (settle o free found) f
      (fun _ f' => Session.Tells [] [] (((found.1.map fun b => assignments b.path).getD []).map (o, ·)).reverse
        f.device.session f'.device.session)
      (fun _ f' => ∃ made, Session.Tells [] [] made f.device.session f'.device.session) := by
  rw [settle, ensures_bind, Frame.ensures_onDevice]
  refine (connect_tells o free found f.device).mono (fun _ d' h => ?_) fun _ _ h => h
  simp only [ensures_bind, ensures_get, Frame.ensures_onRequest]
  unfold Ensures
  -- Staging tells nothing, whether or not it succeeds.
  cases d'.stageCurrent f.request with
  | ok _ r => exact h
  | error e r => exact ⟨_, h⟩

/-- A full search tells what it finds and what it links. -/
theorem allocate_tells (hd : d.WellFormed) {out : Output} (hout : d.output? o = some out)
    (options : ApplyOptions) (started : HostTime) (request : Request) :
    Ensures (allocate o flags options started) ⟨d, request⟩
      (fun score f' => ∃ s entry best scores choices,
        (s.output = out ∧ s.layers = (d.cleared o).layers ∧
          Allocated d o s (fun _ _ => True) (fun _ => True) entry False best f'.device) ∧
        score = best.map Search.Best.score ∧ Search.Agrees scores choices [] best ∧
        Session.Tells scores choices (((best.map fun b => assignments b.path).getD []).map (o, ·)).reverse
          d.session f'.device.session)
      (fun _ f' => ∃ scores choices links,
        Session.Tells scores choices links d.session f'.device.session) := by
  obtain ⟨session, hclear, -, hreports⟩ := clear_eq hd hout
  -- Clearing tells nothing that counts.
  have hcleared : Session.Tells [] [] [] d.session session := aside_clear.of_eq_ok hclear
  rw [ensures_congr (allocate_of_clear hclear flags options started request)]
  simp only [ensures_bind, Frame.ensures_onRequest]
  cases hdisables : disables (d.cleared o) request with
  | error e entry =>
    rw [ensures_of_eq_error hdisables]
    exact ⟨[], [], [], hcleared⟩
  | ok _ entry =>
    rw [ensures_of_eq_ok hdisables]
    have hout₁ : ({ d.cleared o with session } : Device σ).output? o = some out := hout
    let s := sceneOf { d.cleared o with session } out flags options started
    have hsearch := search_spec hout₁ flags options started
      (setting_of_notes (s := s) (notes_asks session.kernel) session)
      ⟨⟨.refl, .refl⟩, refl_of (Session.Reports []) session⟩ entry
    refine (hsearch.and (search_tells hout₁ options started entry)).mono ?_ ?_
    · rintro ⟨best, hints⟩ ⟨d₂, request₂⟩
        ⟨⟨-, ⟨session₂, rfl, -, hreports₂⟩, hbest, hhints, hoptimal⟩, scores, choices, htells, hagrees⟩
      have htells : Session.Tells scores choices [] d.session session₂ := htells.since hcleared
      let free := ((d.cleared o).planes.filter fun p => p.layer.isNone).length
      have hreports := trans_of (Session.Reports []) hreports hreports₂
      obtain ⟨d₃, hallocated, hsettle⟩ : ∃ d₃, Allocated d o s (fun _ _ => True) (fun _ => True) entry False
            best d₃ ∧
          settle o free (best, hints) ⟨{ d.cleared o with session := session₂ }, request₂⟩ =
            (do Frame.onRequest d₃.stageCurrent; pure (best.map Search.Best.score)) ⟨d₃, request₂⟩ :=
        settle_eq hd hout hreports rfl hbest hhints hoptimal free request₂
      -- Staging changes the request only, so whatever is told was told by the links.
      have hdevice : Ensures (settle o free (best, hints)) ⟨{ d.cleared o with session := session₂ }, request₂⟩
          (fun score f' => f'.device = d₃ ∧ score = best.map Search.Best.score) fun _ _ => True := by
        rw [ensures_congr hsettle, ensures_bind, Frame.ensures_onRequest]
        unfold Ensures
        cases d₃.stageCurrent request₂ with
        | ok _ r => exact ⟨rfl, rfl⟩
        | error e r => trivial
      refine (hdevice.and (settle_tells free (best, hints) _)).mono ?_ ?_
      -- What the search told comes before the links.
      · rintro score f' ⟨⟨hf', hscore⟩, hlinks⟩
        exact ⟨s, entry, best, scores, choices, ⟨rfl, rfl, hf' ▸ hallocated⟩, hscore, hagrees, by
          simpa using htells.trans hlinks⟩
      · rintro e f' ⟨-, made, hlinks⟩
        exact ⟨scores, choices, _, htells.trans hlinks⟩
    · rintro e f' ⟨-, scores, choices, htells⟩
      exact ⟨scores, choices, [], htells.since hcleared⟩

omit [Kernel σ] in
/-- What was told of a search is how things are now. The scores rose up to the last one, which is the number
of layers shown. What is shown was accepted, and it was told in the order of visits, each link once. -/
structure Truthful (d : Device σ) (o : OutputId) (score : Option Nat) (told : List Event) : Prop where
  rising : (told.filterMap Event.score?).Pairwise (· < ·)
  last : score = (told.filterMap Event.score?).getLast?
  count : score.getD 0 = d.ordinaryShown o
  accepted : ∀ x ∈ d.shown o, ∃ depth, .candidate depth x.1 x.2 .accepted ∈ told
  linked : told.filterMap Event.link? = (d.shown o).map fun x => (o, x)
  once : (d.shown o).Nodup

section Truth

omit [Kernel σ]

variable {d' d'' : Device σ} {s : Search.Scene} {noted : σ → Request → Prop} {passes : Request → Prop}
  {entry : Request} {steady : Prop} {best : Option Search.Best} {out : Output} {scores : List Nat}
  {choices : List (UInt32 × LayerId)}

/-- What is shown in the end is what the best walk found chose, if there is one. -/
theorem Allocated.shown_eq (h : Allocated d o s noted passes entry steady best d') (hmarks : Marks o d' d'')
    (hout : d.output? o = some out) (houtput : s.output = out)
    (hlayers : s.layers = (d.cleared o).layers) :
    d''.shown o = (best.map fun b => assignments b.path).getD [] ∧
      d''.ordinaryShown o = (best.map Search.Best.score).getD 0 := by
  have hd'' : d''.WellFormed := hmarks.wellFormed h.wellFormed
  cases hb : best with
  | none =>
    -- Without a best path, nothing is linked and so nothing shown.
    have hempty : d''.shown o = [] := by
      refine List.eq_nil_iff_forall_not_mem.mpr fun x hx => ?_
      rw [mem_shown_iff hd'', h.links_eq_empty hmarks hb] at hx
      exact hx
    refine ⟨hempty, ?_⟩
    rw [ordinaryShown, hempty]
    rfl
  | some b =>
    have hlayout := h.layout_best hmarks hout hlayers houtput hb
    exact ⟨hlayout.shown_eq hd'', (hlayout.ordinaryShown_eq hd'').trans (h.feasible b hb).1.symm⟩

/-- After a search, the events since its decision tell the truth about the output. -/
theorem Allocated.truthful (h : Allocated d o s noted passes entry steady best d') (hmarks : Marks o d' d'')
    (hout : d.output? o = some out) (houtput : s.output = out)
    (hlayers : s.layers = (d.cleared o).layers) (hagrees : Search.Agrees scores choices [] best)
    {new : List Event} (hnew : Event.Told scores choices
      (((best.map fun b => assignments b.path).getD []).map (o, ·)).reverse new) :
    Truthful d'' o (best.map Search.Best.score) new.reverse := by
  obtain ⟨hshown, hcount⟩ := h.shown_eq hmarks hout houtput hlayers
  rw [← hshown] at hnew
  refine ⟨?_, ?_, hcount.symm, fun x hx => ?_, ?_, shown_nodup (hmarks.wellFormed h.wellFormed) o⟩
  · rw [List.filterMap_reverse, hnew.scores, List.pairwise_reverse]
    exact hagrees.rising
  · rw [List.filterMap_reverse, hnew.scores, List.getLast?_reverse]
    exact hagrees.score.symm
  · have hchosen : x ∈ choices := by
      -- Each link of the best path comes from a choice that was accepted.
      rw [hshown] at hx
      cases best with
      | none => cases hx
      | some b => exact hagrees.best b rfl hx
    obtain ⟨depth, hmem⟩ := Event.mem_of_accepted? (hnew.choices ▸ hchosen)
    exact ⟨depth, List.mem_reverse.mpr hmem⟩
  · rw [List.filterMap_reverse, hnew.links, List.reverse_reverse]

end Truth

/-- Since `s` an apply has told its end and nothing else of its stages; if it made a search, it has told how
things are now. -/
def Ends (o : OutputId) (outcome : ReuseOutcome) (s : Session σ) (d' : Device σ) : Prop :=
  ∃ new score tests elapsed ended,
    d'.session.trace = .applyEnd o (outcome = .accepted) score tests elapsed ended :: (new ++ s.trace) ∧
      (∀ e ∈ new, e.isMark = false) ∧ (outcome ≠ .accepted → Truthful d' o score new.reverse)

def Unended (s s' : Session σ) : Prop := ∃ new, s'.trace = new ++ s.trace ∧ ∀ e ∈ new, e.isBound = false

instance : IsPreorder (Session σ) Unended where
  refl _ := ⟨[], rfl, by simp⟩
  trans := by
    rintro s s₁ s₂ ⟨new, hnew, hunbound⟩ ⟨new', hnew', hunbound'⟩
    refine ⟨new' ++ new, by rw [hnew', hnew, List.append_assoc], fun e he => ?_⟩
    exact (List.mem_append.mp he).elim (hunbound' e) (hunbound e)

omit [Kernel σ] in
theorem unended_of_tells {scores : List Nat} {choices : List (UInt32 × LayerId)}
    {links : List (OutputId × UInt32 × LayerId)} {s s' : Session σ}
    (h : Session.Tells scores choices links s s') : Unended s s' := by
  obtain ⟨new, hnew, htold⟩ := h
  exact ⟨new, hnew, fun e he => Event.isBound_of_not_isMark (htold.unmarked e he)⟩

/-- Concluding tells the end of the apply, and nothing after it. -/
theorem conclude_tells {f : Frame σ} (hlive : (f.device.output? o).isSome) {outcome : ReuseOutcome}
    {started : HostTime} {score : Option Nat} {s : Session σ} {new : List Event}
    (hnew : f.device.session.trace = new ++ s.trace) (hunmarked : ∀ e ∈ new, e.isMark = false)
    (htruth : outcome ≠ .accepted → ∀ d', Marks o f.device d' → Truthful d' o score new.reverse) :
    Ensures (conclude o outcome started score) f (fun _ f' => Ends o outcome s f'.device)
      (fun _ _ => False) := by
  refine (conclude_ends f hlive outcome started score).mono ?_ fun _ _ => False.elim
  rintro - f' ⟨hmarks, -, hsession⟩
  have htrace := congrArg Session.trace hsession
  rw [hnew] at htrace
  exact ⟨new, score, _, _, _, htrace, hunmarked, fun houtcome => htruth houtcome _ hmarks⟩

/-- What carries a decision out ends the apply, or stops without having told an end. -/
theorem carryOut_tells {f : Frame σ} (hd : f.device.WellFormed) (hlive : (f.device.output? o).isSome)
    (outcome : ReuseOutcome) (options : ApplyOptions) (started : HostTime) :
    Ensures (carryOut o flags options started outcome) f
      (fun _ f' => Ends o outcome f.device.session f'.device)
      (fun _ f' => Unended f.device.session f'.device.session) := by
  have hlives : ∀ {d₁}, Lingers f.device d₁ → (d₁.output? o).isSome := fun h => by
    rw [isSome_output_of_changed (h.changed o)]
    exact hlive
  unfold carryOut
  -- A kept allocation tells no scores, choices or links.
  split
  · rename_i houtcome
    rw [ensures_bind, Frame.ensures_onDevice]
    refine (lingers_countReuse f.device).mono (fun _ d₁ h₁ => ?_) fun _ _ h => unended_of_tells h.aside
    obtain ⟨new, hnew, htold⟩ := h₁.aside
    exact (conclude_tells (hlives h₁) hnew htold.unmarked fun hne => absurd houtcome hne).mono
      (fun _ _ h => h) fun _ _ => False.elim
  -- A new one tells those of its search.
  · rw [ensures_bind, Frame.ensures_onDevice]
    refine (lingers_resetReuse f.device).mono (fun _ d₁ h₁ => ?_) fun _ _ h => unended_of_tells h.aside
    obtain ⟨out, hout⟩ := Option.isSome_iff_exists.mp (hlives h₁)
    rw [ensures_bind]
    refine (allocate_tells (h₁.wellFormed hd) hout options started f.request).mono ?_ ?_
    · rintro score f₂
        ⟨s, entry, best, scores, choices, ⟨houtput, hlayers, hallocated⟩, rfl, hagrees, htells⟩
      obtain ⟨new, hnew, htold⟩ := htells.since h₁.aside
      have hlive₂ : (f₂.device.output? o).isSome := by
        rw [isSome_output_of_changed (hallocated.scene.changed o)]
        exact hlives h₁
      exact (conclude_tells hlive₂ hnew htold.unmarked fun _ d' hmarks =>
        hallocated.truthful hmarks hout houtput hlayers hagrees htold).mono (fun _ _ h => h)
          fun _ _ => False.elim
    · rintro e f₂ ⟨scores, choices, links, htells⟩
      exact unended_of_tells (htells.since h₁.aside)

/-- The decision is told once, before what follows it. -/
theorem decision_tells {f : Frame σ} (hd : f.device.WellFormed) (hlive : (f.device.output? o).isSome)
    (changed : Bool) (options : ApplyOptions) (started : HostTime) :
    Ensures (do
        let outcome ← decideReuse o flags changed
        Frame.emit (.reuse o outcome)
        carryOut o flags options started outcome) f
      (fun _ f' => ∃ outcome s, Session.Tells [] [] [] f.device.session s ∧
        Ends o outcome { s with trace := .reuse o outcome :: s.trace } f'.device)
      (fun _ f' => Unended f.device.session f'.device.session) := by
  rw [ensures_bind]
  refine (lingers_decideReuse changed f).mono (fun outcome f₁ h₁ => ?_) fun _ _ h => unended_of_tells h.aside
  have hlive₁ : (f₁.device.output? o).isSome := by
    rw [isSome_output_of_changed (h₁.changed o)]
    exact hlive
  let s := f₁.device.session
  -- The decision is the next event, and marks no end.
  have hreuse : Unended f.device.session { s with trace := .reuse o outcome :: s.trace } :=
    trans_of Unended (unended_of_tells h₁.aside) ⟨[.reuse o outcome], rfl, by simp [Event.isBound]⟩
  let f₂ : Frame σ :=
    { f₁ with device := { f₁.device with session := { s with trace := .reuse o outcome :: s.trace } } }
  rw [ensures_bind, Frame.ensures_emit]
  refine (carryOut_tells (f := f₂) ?_ hlive₁ outcome options started).mono (fun _ f' h => ?_) fun _ f' h => ?_
  · exact (h₁.wellFormed hd).of_talks ⟨_, rfl⟩
  · exact ⟨outcome, s, h₁.aside, h⟩
  · exact trans_of Unended hreuse h

variable (flags) in
/-- What an apply tells after its beginning. -/
theorem apply_tells (hd : d.WellFormed) {out : Output} (hout : d.output? o = some out)
    (options : ApplyOptions) (request : Request) :
    ∃ started s, s.trace = .applyBegin o out.crtc out.layers.length started :: d.session.trace ∧
      Ensures (Frame.apply o flags options) ⟨d, request⟩
        (fun _ f' => ∃ outcome s₁, Session.Tells [] [] [] s s₁ ∧
          Ends o outcome { s₁ with trace := .reuse o outcome :: s₁.trace } f'.device)
        (fun _ f' => Unended s f'.device.session) := by
  let started := (Kernel.now d.session.kernel).1
  let s : Session σ := { d.session with
    kernel := (Kernel.now d.session.kernel).2
    trace := .applyBegin o out.crtc out.layers.length started :: d.session.trace }
  refine ⟨started, s, rfl, ?_⟩
  rw [apply_eq, ensures_bind, Frame.ensures_now, ensures_bind, Frame.ensures_onDevice, ensures_output]
  -- The output is live, so the apply begins.
  refine ⟨fun out' hout' => ?_, fun hnone => by cases hout.symm.trans hnone⟩
  obtain rfl := Option.some.inj (hout.symm.trans hout')
  rw [ensures_bind, Frame.ensures_emit, ensures_bind, Frame.ensures_onDevice]
  refine (lingers_prepare { d with session := s }).mono (fun changed d₁ h₁ => ?_)
    fun _ _ h => unended_of_tells h.aside
  have hd₁ : d₁.WellFormed := h₁.wellFormed (hd.of_talks ⟨s, rfl⟩)
  have hlive₁ : (d₁.output? o).isSome := by
    rw [isSome_output_of_changed (h₁.changed o)]
    exact Option.isSome_of_eq_some hout
  refine (decision_tells (f := ⟨d₁, request⟩) hd₁ hlive₁ changed options started).mono ?_ ?_
  · rintro - f' ⟨outcome, s₁, htells, hends⟩
    exact ⟨outcome, s₁, htells.since h₁.aside, hends⟩
  · exact fun _ f' h => trans_of Unended (unended_of_tells h₁.aside) h

/-- What the trace of an apply tells. It begins with one event of its own. An apply that fails tells no end;
one that returns tells one decision, nothing of a search before that, and last its end. If it did not keep the
allocation, what it told of its search in between is how things are now. -/
theorem trace_of_apply (hd : d.Reachable) {out : Output} (hout : d.output? o = some out)
    (flags : CommitFlags) (options : ApplyOptions) (request : Request) :
    let result := Frame.apply o flags options ⟨d, request⟩
    let d' := (leftBy result).device
    ∃ started told, d'.session.events =
        d.session.events ++ .applyBegin o out.crtc out.layers.length started :: told ∧
      (succeeded result = false → ∀ e ∈ told, e.isBound = false) ∧
      (succeeded result = true → ∃ before outcome found score tests elapsed ended,
        told = before ++ .reuse o outcome :: found ++
          [.applyEnd o (outcome = .accepted) score tests elapsed ended] ∧
        (∀ e ∈ before ++ found, e.isMark = false) ∧ Event.Told [] [] [] before ∧
        (outcome ≠ .accepted → Truthful d' o score found)) := by
  intro result d'
  obtain ⟨started, s, hbegin, htells⟩ := apply_tells flags hd.wellFormed hout options request
  refine ⟨started, ?_⟩
  cases hrun : Frame.apply o flags options ⟨d, request⟩ with
  -- A failed apply has told no end.
  | error e f' =>
    rw [ensures_of_eq_error hrun] at htells
    obtain ⟨new, hnew, hunbound⟩ := htells
    have hd' : d' = f'.device := by simp only [d', result, hrun, leftBy]
    refine ⟨new.reverse, ?_, fun _ e he => hunbound e (List.mem_reverse.mp he), fun hok => ?_⟩
    · rw [hd', Session.events, hnew, hbegin]
      simp [Session.events]
    · simp [result, hrun, succeeded] at hok
  | ok _ f' =>
    rw [ensures_of_eq_ok hrun] at htells
    obtain ⟨outcome, s₁, ⟨before, hbefore, htold⟩, found, score, tests, elapsed, ended, htrace, hfound,
      htruth⟩ := htells
    have hd' : d' = f'.device := by simp only [d', result, hrun, leftBy]
    refine ⟨before.reverse ++ .reuse o outcome :: found.reverse ++
      [.applyEnd o (outcome = .accepted) score tests elapsed ended], ?_, fun hfailed => ?_, fun _ => ?_⟩
    -- The trace is kept latest first, and so both are turned around.
    · rw [hd', Session.events, htrace, hbefore, hbegin]
      simp [Session.events]
    · simp [result, hrun, succeeded] at hfailed
    · refine ⟨_, outcome, _, score, tests, elapsed, ended, rfl, fun e he => ?_, htold.reverse,
        hd' ▸ htruth⟩
      rcases List.mem_append.mp he with he | he
      · exact htold.unmarked e (List.mem_reverse.mp he)
      · exact hfound e (List.mem_reverse.mp he)

/-- The apply that shows three layers has told the truth about them. -/
theorem trace_of_apply_threeLayers : ∃ out started before outcome found score tests elapsed ended,
    threeLayers.output? .first = some out ∧
      threeShown.session.events = threeLayers.session.events ++
        .applyBegin .first out.crtc out.layers.length started ::
          (before ++ .reuse .first outcome :: found ++
            [.applyEnd .first (outcome = .accepted) score tests elapsed ended]) ∧
      Truthful threeShown .first score found ∧ threeShown.ordinaryShown .first = 3 := by
  have hsome : (threeLayers.output? .first).isSome := by decide +kernel
  have hshown : threeShown.ordinaryShown .first = 3 := by decide +kernel
  have hnew : Event.reuse .first .accepted ∉ threeShown.session.events := by decide +kernel
  obtain ⟨out, hout⟩ := Option.isSome_iff_exists.mp hsome
  obtain ⟨f, hrun, hf⟩ := apply_threeLayers
  obtain ⟨started, told, hevents, -, hok⟩ := trace_of_apply reachable_threeLayers hout {} {} {}
  rw [hrun] at hevents hok
  obtain ⟨before, outcome, found, score, tests, elapsed, ended, rfl, -, -, htruth⟩ := hok rfl
  simp only [leftBy, hf] at hevents htruth
  -- It told a decision, and no decision to keep: this was a search.
  have houtcome : outcome ≠ .accepted := by
    rintro rfl
    rw [hevents] at hnew
    simp at hnew
  exact ⟨out, started, before, outcome, found, score, tests, elapsed, ended, hout, hevents,
    htruth houtcome, hshown⟩

end Allocation

end Scanout
