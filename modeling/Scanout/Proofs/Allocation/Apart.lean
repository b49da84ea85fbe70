import Scanout.Proofs.Allocation.Asked

namespace Scanout

variable {σ : Type}

def Layer.uncounted (l : Layer) : Layer := { l with priority := 0, pendingPriority := 0 }

theorem Layer.uncounted_congr {l l' : Layer} (h : l'.lasting = l.lasting) (hplane : l'.plane = l.plane) :
    l'.uncounted = l.uncounted := by
  have hwith : ∀ l : Layer, l.uncounted = { l.lasting with plane := l.plane } := fun _ => rfl
  rw [hwith l', hwith l, h, hplane]

namespace Device

variable {d d' d'' : Device σ} {o : OutputId} {p : Plane} {id : LayerId} {l : Layer}

structure Foreign (d : Device σ) (o : OutputId) (p : Plane) (id : LayerId) (l : Layer) : Prop where
  mem : p ∈ d.planes
  shows : p.layer = some id
  layer : d.layer? id = some l
  other : l.output ≠ o

def Shuns (d : Device σ) (o : OutputId) (ws : List Write) : Prop :=
  ∀ p id l, d.Foreign o p id l → ∀ w ∈ ws, w.object ≠ p.id

/-- The other outputs' links are as before, on the same planes. -/
structure KeepsLinks (o : OutputId) (d d' : Device σ) : Prop where
  wellFormed : d'.WellFormed
  scenery : d'.scenery = d.scenery
  links : ∀ o' ≠ o, d'.wiring.links o' = d.wiring.links o'

theorem Keeps.keepsLinks (h : Keeps d d') (hd : d.WellFormed) : KeepsLinks o d d' :=
  ⟨h.wellFormed hd, h.scenery, fun o' _ => by rw [h.wiring]⟩

theorem Marks.keepsLinks (h : Marks o d d') (hd : d.WellFormed) : KeepsLinks o d d' :=
  ⟨h.wellFormed hd, h.scenery, fun o' _ => by rw [h.wiring]⟩

theorem keepsLinks_cleared (hd : d.WellFormed) (ho : (d.output? o).isSome) :
    KeepsLinks o d (d.cleared o) := by
  refine ⟨wellFormed_cleared hd ho, (sameScene_cleared d o).scenery, fun o' ho' => ?_⟩
  ext x
  rw [mem_links_cleared]
  exact and_iff_right ho'

namespace KeepsLinks

theorem trans (h : KeepsLinks o d d') (h' : KeepsLinks o d' d'') : KeepsLinks o d d'' :=
  ⟨h'.wellFormed, h'.scenery.trans h.scenery,
    fun o' ho' => (h'.links o' ho').trans (h.links o' ho')⟩

variable (h : KeepsLinks o d d') (hd : d.WellFormed)
include h hd

/-- A plane that shows a layer of another output shows it still. -/
theorem mem_planes (hp : d.Foreign o p id l) : p ∈ d'.planes := by
  have hlink := mem_links_of_plane hd.wiring hp.mem hp.shows hp.layer
  rw [← h.links _ hp.other] at hlink
  obtain ⟨p₁, hp₁, hid, hshows⟩ := plane_of_link h.wellFormed.wiring hlink
  obtain ⟨p₂, hp₂, hbare⟩ := plane_of_scenery h.scenery hp.mem
  -- The plane with the link and the one with the same hardware have one id.
  obtain rfl : p₁ = p₂ :=
    h.wellFormed.wiring.plane_eq hp₁ hp₂ (hid.trans (Plane.id_of_bare hbare).symm)
  have hwith : ∀ q : Plane, q = { q.bare with layer := q.layer } := fun _ => rfl
  have hsame : p₁ = p := by rw [hwith p₁, hwith p, hbare, hshows, hp.shows]
  exact hsame ▸ hp₁

/-- A plane without a layer is none that shows a layer of another output. -/
theorem shuns {ws : List Write} (hws : ∀ w ∈ ws, ∃ q ∈ d'.planes, q.layer = none ∧ w.object = q.id) :
    d.Shuns o ws := by
  intro p id l hp w hw hobject
  obtain ⟨q, hq, hfree, hid⟩ := hws w hw
  have hsame := h.wellFormed.wiring.plane_eq hq (h.mem_planes hd hp) (hid.symm.trans hobject)
  have hshows := hp.shows
  rw [← hsame, hfree] at hshows
  cases hshows

omit hd in
/-- A layer of another output keeps its plane, and all else that is not a count. -/
theorem layer (hothers : LeavesOthers o d d') (hown : ¬ d.Owns o id) :
    (d'.layer? id).map Layer.uncounted = (d.layer? id).map Layer.uncounted := by
  have hlasting := (hothers.layers id).resolve_left fun howned => hown howned.1
  cases hl : d.layer? id with
  | none =>
    rw [hl, Option.map_none, Option.map_eq_none_iff] at hlasting
    rw [hlasting]
  | some l =>
    rw [hl, Option.map_some, Option.map_eq_some_iff] at hlasting
    obtain ⟨l', hl', hsame⟩ := hlasting
    have houtput : l'.output = l.output := (congrArg Layer.output hsame :)
    have hother : l.output ≠ o := fun ho => hown (by simp [Owns, hl, ho])
    -- What plane the layer is on can be read off the links of its output.
    have hlink : ∀ q, l'.plane = some q ↔ l.plane = some q := by
      intro q
      have hiff := Set.ext_iff.mp (h.links l.output hother) (q, id)
      simpa [mem_links_iff, hl, hl', houtput] using hiff
    have hplane : l'.plane = l.plane := Option.ext hlink
    rw [hl', Option.map_some, Option.map_some, Layer.uncounted_congr hsame hplane]

end KeepsLinks

end Device

namespace Allocation

open Device

section Runs

variable [Kernel σ] {flags : CommitFlags} {o : OutputId} {noted : σ → Request → Prop}
  {request entry r : Request} {d d₁ d₂ d' : Device σ}

omit [Kernel σ] in
theorem Spares.keepsLinks (h : Spares d o d') : KeepsLinks o d d' :=
  ⟨h.wellFormed, h.scene.scenery, h.others⟩

theorem Laid.keepsLinks (h : Laid flags o noted request entry d₁ d₂) : KeepsLinks o d₁ d₂ := by
  obtain ⟨s, best, -, -, hallocated⟩ := h.allocated
  exact hallocated.toSpares.keepsLinks

theorem Applied.keepsLinks (h : Applied flags o noted request r d d') (hd : d.WellFormed) :
    KeepsLinks o d d' := by
  obtain ⟨d₁, d₂, outcome, hdecides, hmarks, -, ⟨-, rfl, -⟩ | ⟨-, entry, hlaid, -⟩⟩ := h
  · have h₁ := hdecides.keepsLinks (o := o) hd
    exact h₁.trans (hmarks.keepsLinks h₁.wellFormed)
  · have h₂ := (hdecides.keepsLinks hd).trans hlaid.keepsLinks
    exact h₂.trans (hmarks.keepsLinks h₂.wellFormed)

theorem Stopped.keepsLinks {failure : Failure} (h : Stopped flags o noted request failure d d')
    (hd : d.WellFormed) : KeepsLinks o d d' := by
  rcases h with ⟨hbides, -⟩ | ⟨d₁, outcome, -, hdecides, hspares, -⟩
  · exact hbides.keepsLinks hd
  · exact (hdecides.keepsLinks hd).trans hspares.keepsLinks

omit [Kernel σ] in
theorem shuns_idleWrites (hd : d.WellFormed) (h : KeepsLinks o d d') : d.Shuns o d'.idleWrites := by
  refine h.shuns hd fun w hw => ?_
  obtain ⟨q, hq, hwq⟩ := List.mem_flatMap.mp hw
  obtain ⟨hmem, hfree⟩ := List.mem_filter.mp hq
  exact ⟨q, hmem, Option.isNone_iff_eq_none.mp hfree, q.object_disabledWrites w hwq⟩

/-- What is staged for the links shows on the planes of other outputs what they show already. -/
theorem filter_stageCurrent (hd : d.WellFormed) (hkeeps : KeepsLinks o d d')
    (hchanges : Changes (Kernel.Asks flags) Layer.SameContent d d') {p : Plane} {id : LayerId}
    {l : Layer} (hp : d.Foreign o p id l) : ∃ out, d.output? l.output = some out ∧
      (d'.planes.flatMap d'.planeWrites).filter (·.object = p.id) = p.layerWrites l out.crtc := by
  obtain ⟨out, hout, -⟩ := output_of_layer hd hp.layer
  refine ⟨out, hout, ?_⟩
  -- The filter keeps the writes of one plane, whose link and hardware the apply has not touched.
  have hmem := hkeeps.mem_planes hd hp
  have hwrites := (planeWrites_of_changes hkeeps.wellFormed hchanges
    (fun _ _ _ => Layer.worn_of_content) hmem).1
  calc
    _ = d'.planeWrites p := Request.filter_flatMap Plane.id (fun q _ => d'.object_planeWrites q)
      hkeeps.wellFormed.wiring.ids_nodup hmem
    _ = d.planeWrites p := hwrites
    _ = p.layerWrites l out.crtc := by simp only [planeWrites, hp.shows, hp.layer, hout]

/-- An apply that succeeds adds for a plane of another output the writes for what it shows, and no
others. -/
theorem Applied.filter_writes (h : Applied flags o noted request r d d') (hd : d.WellFormed) :
    ∃ ws, r = request.append ws ∧ ∀ p id l, d.Foreign o p id l →
      ∃ out, d.output? l.output = some out ∧
        ws.filter (·.object = p.id) = p.layerWrites l out.crtc := by
  obtain ⟨d₁, d₂, outcome, hdecides, -, -, ⟨-, rfl, hkept⟩ | ⟨-, entry, hlaid, hstage⟩⟩ := h
  -- In a kept allocation every plane is staged as its link says.
  · refine ⟨_, hkept.writes, fun p id l hp => ?_⟩
    exact filter_stageCurrent hd (hdecides.keepsLinks hd) hdecides.changes hp
  · obtain ⟨s, best, hout, -, -⟩ := hlaid.allocated
    have h₁ := hdecides.keepsLinks (o := o) hd
    have hcleared := h₁.trans
      (keepsLinks_cleared h₁.wellFormed (Option.isSome_of_eq_some hout))
    obtain ⟨rfl, -⟩ := (d₁.cleared o).adds_disables request entry hlaid.disabled
    obtain ⟨rfl, -⟩ := d₂.adds_stageCurrent _ r hstage
    refine ⟨(d₁.cleared o).idleWrites ++ d₂.planes.flatMap d₂.planeWrites, ?_, fun p id l hp => ?_⟩
    · simp [Request.append, idleWrites]
    -- Only planes without a layer are switched off, and this one shows a foreign layer.
    · have hidle : (d₁.cleared o).idleWrites.filter (·.object = p.id) = [] := by
        rw [List.filter_eq_nil_iff]
        intro w hw hobject
        exact shuns_idleWrites hd hcleared p id l hp w hw (of_decide_eq_true hobject)
      rw [List.filter_append, hidle, List.nil_append]
      exact filter_stageCurrent hd (h₁.trans hlaid.keepsLinks)
        (hdecides.changes.trans hlaid.changes) hp

/-- The driver was asked nothing but the questions `ts` of a search and perhaps, before them, whether
the links would pass as they were. The other outputs are left alone. -/
structure Heard (A : σ → List Search.Trial → σ → Prop) (o : OutputId) (request : Request)
    (d : Device σ) (ts : List Search.Trial) (d' : Device σ) : Prop extends LeavesOthers o d d' where
  questions : ∃ reuse : Option Search.Trial,
    (∀ t ∈ reuse, t.request = request.append (d.planes.flatMap d.planeWrites)) ∧
      A d.session.kernel (reuse.toList ++ ts) d'.session.kernel

structure Waits (A : σ → List Search.Trial → σ → Prop) (o : OutputId) (d d' : Device σ) : Prop
    extends LeavesOthers o d d' where
  unasked : A d.session.kernel [] d'.session.kernel

section Asking

variable {A : σ → List Search.Trial → σ → Prop} (hA : Search.Tracks flags A)
include hA

theorem Waits.trans (h : Waits A o d d₁) (h' : Waits A o d₁ d₂) : Waits A o d d₂ :=
  ⟨trans_of (LeavesOthers o) h.toLeavesOthers h'.toLeavesOthers, hA.append h.unasked h'.unasked⟩

theorem Waits.of_confined (h : Confined o d d') : Waits A o d d' :=
  ⟨h.toLeavesOthers, h.kernel ▸ hA.nil _⟩

omit [Kernel σ] hA in
theorem Waits.heard (h : Waits A o d d') : Heard A o request d [] d' :=
  ⟨h.toLeavesOthers, none, nofun, h.unasked⟩

theorem Heard.after (h : Waits A o d d₁)
    (hwrites : d₁.planes.flatMap d₁.planeWrites = d.planes.flatMap d.planeWrites)
    {ts : List Search.Trial} (h' : Heard A o request d₁ ts d₂) : Heard A o request d ts d₂ := by
  obtain ⟨reuse, hreuse, hasked⟩ := h'.questions
  have hasked := hA.append h.unasked hasked
  rw [hwrites] at hreuse
  rw [List.nil_append] at hasked
  exact ⟨trans_of (LeavesOthers o) h.toLeavesOthers h'.toLeavesOthers, reuse, hreuse, hasked⟩

theorem Heard.goesOn {ts ts' : List Search.Trial}
    (h : Heard A o request d ts d₁) (hleaves : LeavesOthers o d₁ d₂)
    (hasks : A d₁.session.kernel ts' d₂.session.kernel) : Heard A o request d (ts ++ ts') d₂ := by
  obtain ⟨reuse, hreuse, hasked⟩ := h.questions
  refine ⟨trans_of (LeavesOthers o) h.toLeavesOthers hleaves, reuse, hreuse, ?_⟩
  rw [← List.append_assoc]
  exact hA.append hasked hasks

theorem Heard.waits {ts : List Search.Trial} (h : Heard A o request d ts d₁) (hwaits : Waits A o d₁ d₂) :
    Heard A o request d ts d₂ := by
  simpa only [List.append_nil] using h.goesOn hA hwaits.toLeavesOthers hwaits.unasked

theorem Heard.confined {ts : List Search.Trial} (h : Heard A o request d ts d₁)
    (hconfined : Confined o d₁ d₂) : Heard A o request d ts d₂ :=
  h.waits hA (.of_confined hA hconfined)

theorem waits_now (d : Device σ) : Ensures (onSession Session.now) d
    (fun _ d' => Waits A o d d') (fun _ d' => Waits A o d d') :=
  ⟨leavesOthers_session d _, hA.now d.session.kernel⟩

/-- An attempt to keep the allocation asks about the links as they are, if they can be staged. -/
theorem tryReuse_asks (f : Frame σ) :
    let asks := fun d' : Device σ => Heard A o f.request f.device [] d'
    Ensures (tryReuse flags) f (fun _ f' => asks f'.device) (fun _ f' => asks f'.device) := by
  intro asks
  -- Before the test nothing is asked.
  have hsilent : asks f.device :=
    ⟨refl_of (LeavesOthers o) f.device, none, nofun, hA.nil _⟩
  simp only [tryReuse, ensures_bind, ensures_get, Frame.ensures_attempt, Frame.ensures_onRequest]
  cases hstage : f.device.stageCurrent f.request with
  | error e r =>
    rw [ensures_of_eq_error hstage]
    split
    · exact hsilent
    · exact hsilent
    · rename_i heq
      cases heq
  | ok _ r =>
    rw [ensures_of_eq_ok hstage]
    -- The links can be staged, so the driver is asked about them once, whatever it answers.
    obtain ⟨hwrites, -⟩ := f.device.adds_stageCurrent f.request r hstage
    simp only [ensures_bind, Frame.testCommit, ensures_get, Frame.ensures_onDevice,
      ensures_onSession]
    obtain ⟨t, -, hrequest, -, hasked⟩ := hA.test f.device.session.kernel [] r
    have hheard : ∀ session : Session σ,
        session.kernel = (Kernel.test f.device.session.kernel r flags).2 →
        asks { f.device with session } := by
      intro session hkernel
      refine ⟨leavesOthers_session _ session, some t, ?_, ?_⟩
      · rintro _ ⟨⟩
        rw [hrequest, hwrites]
      · simp only [hkernel]
        exact hasked
    refine (Session.testCommit_spec r flags f.device.session).mono ?_ ?_
    · rintro reply session ⟨hkernel, -⟩
      cases reply with
      | none => exact hheard session hkernel
      | some e => exact hheard session hkernel
    · rintro e session ⟨hkernel, -⟩
      exact hheard session hkernel

theorem decideReuse_asks (f : Frame σ) (orderChanged : Bool) :
    let asks := fun d' : Device σ => Heard A o f.request f.device [] d'
    Ensures (decideReuse o flags orderChanged) f (fun _ f' => asks f'.device)
      (fun _ f' => asks f'.device) := by
  intro asks
  have hsilent : asks f.device :=
    ⟨refl_of (LeavesOthers o) f.device, none, nofun, hA.nil _⟩
  simp only [decideReuse, ensures_bind, Frame.ensures_onDevice, Device.ensures_output, ensures_get]
  refine ⟨fun out hout => ?_, fun _ => hsilent⟩
  split
  · exact hsilent
  · rw [ensures_bind]
    -- Without a blocker the decision is left to the attempt.
    refine (tryReuse_asks hA f).mono (fun objection f' h => ?_) fun _ _ h => h
    cases objection <;> exact h

omit [Kernel σ] hA in
/-- The path of a question puts layers on free planes only. -/
theorem shuns_of_says (hd : d.WellFormed) (h : KeepsLinks o d d') {s : Search.Scene}
    {t : Search.Trial} (ht : t.Says s entry d'.planes) :
    d.Shuns o (t.path.reverse.flatMap (Search.Choice.writes s)) := by
  refine h.shuns hd fun w hw => ?_
  obtain ⟨c, hc, hwc⟩ := List.mem_flatMap.mp hw
  have hmem : c.plane ∈ d'.planes := ht.visits.subset (List.mem_map_of_mem hc)
  have hobject := c.object_writes s w hwc
  cases hlayer : c.layer with
  | none =>
    -- An empty plane takes no writes.
    simp [Search.Choice.writes, Search.Scene.chosen?, hlayer] at hwc
  | some id =>
    obtain ⟨earlier, l, -, hplaced⟩ := ht.legal.exists_placed (List.mem_reverse.mp hc) hlayer
    have hfree : c.plane.layer = none := (Plane.isFreeFor_eq_true_iff.mp hplaced.free).1
    exact ⟨c.plane, hmem, hfree, hobject⟩

def Sought (o : OutputId) (d : Device σ) (request : Request) (t : Search.Trial) : Prop :=
  ∃ d₁ s, KeepsLinks o d d₁ ∧ t.Says s (request.append d₁.idleWrites) d₁.planes

omit [Kernel σ] hA in
/-- A question of a search writes to no plane of another output. -/
theorem Sought.shuns (hd : d.WellFormed) {t : Search.Trial} (h : Sought o d request t) :
    ∃ ws, t.request = request.append ws ∧ d.Shuns o ws := by
  obtain ⟨d₁, s, hkeeps, hsaid⟩ := h
  -- What is staged is what idles, then what the path chooses; neither is for a plane with a foreign layer.
  refine ⟨d₁.idleWrites ++ t.path.reverse.flatMap (Search.Choice.writes s), ?_, ?_⟩
  · rw [hsaid.request]
    simp [Search.Path.staged, Request.append]
  · intro p id l hp w hw
    rcases List.mem_append.mp hw with hw | hw
    · exact shuns_idleWrites hd hkeeps p id l hp w hw
    · exact shuns_of_says hd hkeeps hsaid p id l hp w hw

/-- The questions of a full search are about its paths. -/
theorem allocate_sought (h : KeepsLinks o d d₁) (ho : (d₁.output? o).isSome) (options : ApplyOptions)
    (started : HostTime) :
    let asks := fun d' : Device σ => LeavesOthers o d₁ d' ∧ ∃ ts, (∀ t ∈ ts, Sought o d request t) ∧
      A d₁.session.kernel ts d'.session.kernel
    Ensures (allocate o flags options started) ⟨d₁, request⟩ (fun _ f' => asks f'.device)
      (fun _ f' => asks f'.device) := by
  intro asks
  obtain ⟨out, hout⟩ := Option.isSome_iff_exists.mp ho
  -- The search looks at the device without the output's own links, and the links of others are the same
  -- there.
  have hcleared := h.trans (keepsLinks_cleared h.wellFormed ho)
  apply (allocate_asks hA h.wellFormed hout options started request).imp
  rintro f' ⟨hleaves, ts, htour, hasked⟩
  exact ⟨hleaves, ts, fun t ht => ⟨_, _, hcleared, htour.says_entry t ht⟩, hasked⟩

/-- The last steps of an apply only look at the clock. -/
theorem conclude_heard {f : Frame σ} {ts : List Search.Trial} (hwell : f.device.WellFormed)
    (h : Heard A o request d ts f.device) (outcome : ReuseOutcome) (started : HostTime)
    (score : Option Nat) :
    Ensures (conclude o outcome started score) f (fun _ f' => Heard A o request d ts f'.device)
      (fun _ f' => Heard A o request d ts f'.device) := by
  simp only [conclude, ensures_bind, Frame.ensures_onDevice]
  refine (confined_markClean hwell).mono (fun _ d₁ h₁ => ?_) fun _ _ h₁ => h.confined hA h₁
  exact (h.confined hA h₁).waits hA ⟨leavesOthers_session d₁ _, hA.now d₁.session.kernel⟩

/-- What follows the decision asks what a search asks, if anything. -/
theorem carryOut_heard (hd : d.WellFormed) (f : Frame σ) {outcome : ReuseOutcome}
    (hkeeps : Keeps d f.device) (h : Heard A o request d [] f.device)
    (hrefused : outcome ≠ .accepted → f.request = request) (ho : (d.output? o).isSome)
    (options : ApplyOptions) (started : HostTime) :
    let heard := fun d' : Device σ => ∃ ts, Heard A o request d ts d' ∧
      ∀ t ∈ ts, Sought o d request t
    Ensures (carryOut o flags options started outcome) f (fun _ f' => heard f'.device)
      (fun _ f' => heard f'.device) := by
  intro heard
  have hnothing : ∀ {d'}, Heard A o request d [] d' → heard d' :=
    fun h => ⟨[], h, fun _ ht => nomatch ht⟩
  -- Neither kind of count is about links.
  have hsession : ∀ (d : Device σ) (session : Session σ),
      Relation.ReflTransGen (Kernel.Asks flags) d.session.kernel session.kernel →
      Session.Reports [] d.session session → Keeps d { d with session } :=
    fun d session _ _ => keeps_session d session
  have hcounted : ∀ (d : Device σ) (o : OutputId) (reusedCount : Nat),
      Keeps d (d.withOutput o ({ · with reusedCount })) :=
    fun d o _ => Quiet.toKeeps (quiet_withOutput (fun _ _ => rfl) fun _ _ => rfl)
  -- A kept allocation is only counted, anything else makes a search.
  unfold carryOut
  split
  · rw [ensures_bind, Frame.ensures_onDevice]
    have hcount := (confined_countReuse (o := o) f.device).and
      (stays_countReuse (stays_log hsession) hcounted o f.device)
    refine hcount.mono ?_ fun _ _ h₁ => hnothing (h.confined hA h₁.1)
    rintro - d₁ ⟨hconfined, hkept⟩
    have hwell : d₁.WellFormed := (trans_of Keeps hkeeps hkept).wellFormed hd
    have hconclude := conclude_heard hA (f := ⟨d₁, f.request⟩) hwell (h.confined hA hconfined) outcome
      started none
    exact hconclude.imp fun _ h => hnothing h
  · rename_i houtcome
    rw [ensures_bind, Frame.ensures_onDevice]
    have hreset := (confined_resetReuse (o := o) f.device).and
      (stays_resetReuse (stays_log hsession) hcounted o f.device)
    refine hreset.mono ?_ fun _ _ h₁ => hnothing (h.confined hA h₁.1)
    rintro - d₁ ⟨hconfined, hkept⟩
    have hkeeps₁ := trans_of Keeps hkeeps hkept
    have hlinks := hkeeps₁.keepsLinks (o := o) hd
    have hlive : (d₁.output? o).isSome := by
      rw [isSome_output_of_changed (hkeeps₁.changed o)]
      exact ho
    have hnotes : Kernel.Notes flags _ _ := notes_asks d₁.session.kernel
    rw [hrefused houtcome, ensures_bind]
    -- The search is told twice: by what it asks the driver and by what it leaves on the device.
    refine ((allocate_sought hA hlinks hlive options started).and
      (laid_spec hlinks.wellFormed hnotes .refl hlive options started request)).mono ?_ ?_
    · rintro score f₂ ⟨⟨hleaves, ts, hsought, hasked⟩, entry, hlaid, -⟩
      have hheard := (h.confined hA hconfined).goesOn hA hleaves hasked
      rw [List.nil_append] at hheard
      have hconclude := conclude_heard hA hlaid.keepsLinks.wellFormed hheard outcome started score
      exact hconclude.imp fun _ h => ⟨ts, h, hsought⟩
    · rintro e f₂ ⟨⟨hleaves, ts, hsought, hasked⟩, -⟩
      have hheard := (h.confined hA hconfined).goesOn hA hleaves hasked
      rw [List.nil_append] at hheard
      exact ⟨ts, hheard, hsought⟩

/-- What an apply asks: perhaps whether the present links would pass, and then what a search asks. -/
theorem apply_heard (hd : d.WellFormed) (options : ApplyOptions) (request : Request) :
    let heard := fun d' : Device σ => ∃ ts, Heard A o request d ts d' ∧
      ∀ t ∈ ts, Sought o d request t
    Ensures (Frame.apply o flags options) ⟨d, request⟩ (fun _ f' => heard f'.device)
      (fun _ f' => heard f'.device) := by
  intro heard
  have hnothing : ∀ {d'}, Heard A o request d [] d' → heard d' :=
    fun h => ⟨[], h, fun _ ht => nomatch ht⟩
  -- Up to the decision nothing that is staged for a link changes, and only the time is asked.
  have hwaits : ∀ {α : Type} {x : DeviceM σ α} {d₁ : Device σ} {Q : α → Frame σ → Prop},
      Stays (Bides flags) x →
      Ensures x d₁ (fun _ d₂ => Waits A o d₁ d₂) (fun _ d₂ => Waits A o d₁ d₂) →
      Bides flags d d₁ → Waits A o d d₁ →
      (∀ a d₂, Bides flags d d₂ → Waits A o d d₂ → Q a ⟨d₂, request⟩) →
      Ensures (Frame.onDevice x) ⟨d₁, request⟩ Q (fun _ f' => heard f'.device) := by
    intro α x d₁ Q hx hwaits hbides h hQ
    rw [Frame.ensures_onDevice]
    refine ((hx d₁).and hwaits).mono (fun a d₂ h₂ => ?_) fun _ _ h₂ => ?_
    · exact hQ a d₂ (trans_of (Bides flags) hbides h₂.1) (h.trans hA h₂.2)
    · exact hnothing ((h.trans hA h₂.2).heard)
  -- Phase by phase up to the decision: the clock, the output, the beginning, the counts and the order.
  rw [apply_eq, ensures_bind]
  refine hwaits bides_now (waits_now hA d) (refl_of (Bides flags) d)
    ⟨refl_of (LeavesOthers o) d, hA.nil _⟩ fun started d₁ hbides₁ h₁ => ?_
  rw [ensures_bind, Frame.ensures_onDevice, ensures_output]
  refine ⟨fun out hout => ?_, fun _ => hnothing h₁.heard⟩
  have ho : (d.output? o).isSome := by
    rw [← isSome_output_of_changed (hbides₁.changed o), hout]
    rfl
  rw [ensures_bind]
  refine hwaits (bides_emit rfl) (.of_confined hA (confined_emit _ d₁)) hbides₁ h₁
    fun _ d₂ hbides₂ h₂ => ?_
  rw [ensures_bind]
  have hprepare := confined_prepare (o := o) (hbides₂.wellFormed hd)
  refine hwaits bides_prepare (hprepare.mono (fun _ _ => .of_confined hA) fun _ _ => .of_confined hA)
    hbides₂ h₂ fun orderChanged d₃ hbides₃ h₃ => ?_
  -- The counts and the order are no part of what a plane's link makes it write.
  have hwrites := flatMap_planeWrites_of_changes (hbides₃.wellFormed hd) hbides₃.changes
    (fun _ _ _ => Layer.worn_of_content) (congrArg Wiring.planes hbides₃.wiring)
  rw [ensures_bind]
  refine ((decideReuse_spec (notes_asks d₃.session.kernel) o orderChanged ⟨d₃, request⟩ .refl).and
    (decideReuse_asks hA ⟨d₃, request⟩ orderChanged)).mono ?_ ?_
  · rintro outcome f₄ ⟨⟨hbides₄, -, hrefused⟩, hasks⟩
    have hheard := Heard.after hA h₃ hwrites hasks
    -- What follows starts from the device that has told the decision.
    let d₄ : Device σ := { f₄.device with session :=
      { f₄.device.session with trace := .reuse o outcome :: f₄.device.session.trace } }
    have hkeeps : Keeps d d₄ := trans_of Keeps
      (trans_of Keeps hbides₃.toKeeps hbides₄.toKeeps) (keeps_session f₄.device _)
    have hheard₄ : Heard A o request d [] d₄ := hheard.confined hA (confined_emit _ f₄.device)
    rw [ensures_bind]
    exact carryOut_heard hA hd ⟨d₄, f₄.request⟩ hkeeps hheard₄ hrefused ho options started
  · rintro e f₄ ⟨-, hasks⟩
    exact hnothing (Heard.after hA h₃ hwrites hasks)

end Asking

end Runs

/-- However an apply ends, the other outputs, their layers up to the counts, and the planes that show
these are as they were. It asks perhaps whether the present links would pass, and then what a search
asks, which adds nothing for these planes. If it succeeds, it adds for such a plane what shows its layer
on the pipe of that layer's output. -/
theorem others_of_apply [Kernel σ] {d : Device (Recorded σ)} (hd : d.Reachable) (o : OutputId)
    (flags : CommitFlags) (options : ApplyOptions) (request : Request) :
    let f := leftBy (Frame.apply o flags options ⟨d, request⟩)
    ((∀ o' ≠ o, f.device.output? o' = d.output? o') ∧
      (∀ id, ¬ d.Owns o id →
        (f.device.layer? id).map Layer.uncounted = (d.layer? id).map Layer.uncounted) ∧
      ∀ p id l, d.Foreign o p id l → p ∈ f.device.planes) ∧
    (∃ (reuse : Option Search.Trial) (ts : List Search.Trial),
      f.device.session.kernel.log =
        ((reuse.toList ++ ts).flatMap (Recorded.commits flags)).reverse ++ d.session.kernel.log ∧
      (∀ t ∈ reuse, t.request = request.append (d.planes.flatMap d.planeWrites)) ∧
      ∀ t ∈ ts, ∃ ws, t.request = request.append ws ∧
        ∀ p id l, d.Foreign o p id l → ∀ w ∈ ws, w.object ≠ p.id) ∧
    ∀ f', Frame.apply o flags options ⟨d, request⟩ = .ok () f' →
      ∃ ws, f'.request = request.append ws ∧ ∀ p id l, d.Foreign o p id l →
        ∃ out, d.output? l.output = some out ∧
          ws.filter (·.object = p.id) = p.layerWrites l out.crtc := by
  intro f
  have hwell := hd.wellFormed
  have hnotes : Kernel.Notes flags _ _ := notes_asks d.session.kernel
  have hcases := apply_cases (o := o) hwell hnotes .refl options request
  have hlinks : KeepsLinks o d f.device :=
    (hcases.mono (fun _ _ h => h.keepsLinks hwell) fun _ _ h => h.keepsLinks hwell).leftBy
  obtain ⟨ts, hheard, hsought⟩ :=
    (apply_heard (Recorded.tracks flags) hwell (o := o) options request).leftBy
  refine ⟨⟨hheard.outputs, ?_, ?_⟩, ?_, fun f' happly => ?_⟩
  · exact fun id hown => hlinks.layer hheard.toLeavesOthers hown
  · exact fun p id l hp => hlinks.mem_planes hwell hp
  -- What was asked is read off the log of the recorded driver.
  · obtain ⟨reuse, hreuse, hlog⟩ := hheard.questions
    exact ⟨reuse, ts, hlog, hreuse, fun t ht => (hsought t ht).shuns hwell⟩
  · rw [ensures_of_eq_ok happly] at hcases
    exact hcases.filter_writes hwell

def firstShown : Device (Recorded Scripted) :=
  twoOutputs ⟨.twoPipes, []⟩ (.setProperty ⟨⟨1, 0⟩⟩ "FB_ID" 2)

/-- The apply of the second output leaves the first one's layer where it is and stages just that. -/
theorem others_of_firstShown : ∃ f : Frame (Recorded Scripted),
    Frame.apply .second {} {} ⟨firstShown, {}⟩ = .ok () f ∧
      ∃ p id l out, firstShown.Foreign .second p id l ∧ p ∈ f.device.planes ∧
        firstShown.output? l.output = some out ∧
          f.request.writes.filter (·.object = p.id) = p.layerWrites l out.crtc := by
  have happly := eq_ok_of_succeeded (x := Frame.apply .second {} {} ⟨firstShown, {}⟩)
    (by decide +kernel)
  have hreachable : firstShown.Reachable :=
    ⟨⟨.twoPipes, []⟩, {}, [1, 2], _, run_afterAll (by decide +kernel)⟩
  -- The foreign plane and its layer are found by running the small device.
  have hplane : ∃ p ∈ firstShown.planes, p.layer = some (⟨⟨0, 0⟩⟩ : LayerId) := by decide +kernel
  have hlayer : ∃ l ∈ firstShown.layer? ⟨⟨0, 0⟩⟩, l.output ≠ .second := by decide +kernel
  obtain ⟨p, hp, hshows⟩ := hplane
  obtain ⟨l, hl, hother⟩ := hlayer
  have hforeign : firstShown.Foreign .second p ⟨⟨0, 0⟩⟩ l := ⟨hp, hshows, hl, hother⟩
  obtain ⟨⟨-, -, hkept⟩, -, hrequest⟩ := others_of_apply hreachable .second {} {} {}
  obtain ⟨ws, hwrites, hstaged⟩ := hrequest _ happly
  obtain ⟨out, hout, hfilter⟩ := hstaged p _ l hforeign
  refine ⟨_, happly, p, _, l, out, hforeign, hkept p _ l hforeign, hout, ?_⟩
  rw [hwrites]
  exact hfilter

end Allocation

end Scanout
