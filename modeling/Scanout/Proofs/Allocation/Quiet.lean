import Scanout.Allocation.Apply
import Scanout.Proofs.Device.Planes
import Scanout.Proofs.Session

namespace Scanout

variable {σ : Type}

def Layer.look (l : Layer) : Option Int × Bool × Rect := (l.zpos?, l.isVisible, l.screenRect)

namespace Device

def periodElapsed (d : Device σ) : Bool := d.config.priorityPeriod.toNat ≤ d.applyCount + 1

def counted (d : Device σ) : Device σ :=
  { d with
    applyCount := if d.periodElapsed then 0 else d.applyCount + 1
    layers := d.layers.map fun l => l.countUpdate d.periodElapsed }

theorem layer?_counted (d : Device σ) (id : LayerId) :
    d.counted.layer? id = (d.layer? id).map fun l => l.countUpdate d.periodElapsed :=
  Arena.get?_map d.layers _ id.toHandle

structure Keeps (d d' : Device σ) : Prop where
  wellFormed : d.WellFormed → d'.WellFormed
  wiring : d'.wiring = d.wiring
  looks : ∀ id, (d'.layer? id).map Layer.look = (d.layer? id).map Layer.look
  changed : ∀ o, (d'.output? o).map Output.layersChanged = (d.output? o).map Output.layersChanged

structure Quiet (d d' : Device σ) : Prop extends Keeps d d' where
  reports : Session.Reports [] d.session d'.session

instance : IsPreorder (Device σ) Keeps where
  refl _ := ⟨fun h => h, rfl, fun _ => rfl, fun _ => rfl⟩
  trans _ _ _ h h' :=
    ⟨fun hd => h'.wellFormed (h.wellFormed hd), h'.wiring.trans h.wiring,
      fun id => (h'.looks id).trans (h.looks id), fun o => (h'.changed o).trans (h.changed o)⟩

instance : IsPreorder (Device σ) Quiet where
  refl d := ⟨refl_of Keeps d, refl_of (Session.Reports []) _⟩
  trans _ _ _ h h' :=
    ⟨trans_of Keeps h.toKeeps h'.toKeeps, trans_of (Session.Reports []) h.reports h'.reports⟩

theorem layersChanged_congr {d d' : Device σ} {o : OutputId}
    (h : (d'.output? o).map Output.layersChanged = (d.output? o).map Output.layersChanged) :
    d'.LayersChanged o ↔ d.LayersChanged o := by
  have hiff : ∀ d : Device σ,
      d.LayersChanged o ↔ (d.output? o).map Output.layersChanged = some true := by
    intro d
    simp only [LayersChanged, Option.map_eq_some_iff]
  rw [hiff, hiff, h]

theorem Keeps.layersChanged {d d' : Device σ} (h : Keeps d d') (o : OutputId) :
    d'.LayersChanged o ↔ d.LayersChanged o := layersChanged_congr (h.changed o)

/-- What was said to or heard from the driver matters nowhere but in the session. -/
theorem keeps_session (d : Device σ) (session : Session σ) : Keeps d { d with session } :=
  ⟨fun hd => ⟨hd.wiring, hd.layers, hd.outputs⟩, rfl, fun _ => rfl, fun _ => rfl⟩

section Edits

variable {d : Device σ}

theorem quiet_session {session : Session σ} (h : Session.Reports [] d.session session) :
    Quiet d { d with session } := ⟨keeps_session d session, h⟩

/-- An edit that leaves a layer in its place and with its look is quiet. -/
theorem quiet_withLayer {id : LayerId} {f : Layer → Layer}
    (hplace : ∀ l, d.layer? id = some l → (f l).place = l.place)
    (hlook : ∀ l, d.layer? id = some l → (f l).look = l.look) : Quiet d (d.withLayer id f) where
  wellFormed hd :=
    hd.of_wiring (wiring_withLayer_of_place hplace) (Arena.wellFormed_modify hd.layers _ _) hd.outputs
  wiring := wiring_withLayer_of_place hplace
  looks := by
    intro id'
    rw [layer?_withLayer]
    by_cases hid : id' = id
    -- The edited layer has kept its look, and no other was touched.
    · subst hid
      rw [if_pos rfl, Option.map_map]
      exact Option.map_congr hlook
    · rw [if_neg hid]
  changed _ := rfl
  reports := refl_of (Session.Reports []) _

/-- An edit of an output that keeps its members and its mark is quiet. -/
theorem quiet_withOutput {o : OutputId} {f : Output → Output}
    (hmembers : ∀ out, d.output? o = some out → (f out).members = out.members)
    (hchanged : ∀ out, d.output? o = some out → (f out).layersChanged = out.layersChanged) :
    Quiet d (d.withOutput o f) where
  wellFormed hd :=
    hd.of_wiring (wiring_withOutput_of_members hmembers) hd.layers
      (Arena.wellFormed_modify hd.outputs _ _)
  wiring := wiring_withOutput_of_members hmembers
  looks _ := rfl
  changed := by
    intro o'
    rw [output?_withOutput]
    by_cases ho : o' = o
    · subst ho
      rw [if_pos rfl, Option.map_map]
      exact Option.map_congr hchanged
    · rw [if_neg ho]
  reports := refl_of (Session.Reports []) _

theorem quiet_mapLayers (applyCount : Nat) {f : Layer → Layer} (hplace : ∀ l, (f l).place = l.place)
    (hlook : ∀ l, (f l).look = l.look) :
    Quiet d { d with applyCount, layers := d.layers.map f } := by
  -- The same edit of all layers shows under each handle.
  have hlayer : ∀ id, ({ d with applyCount, layers := d.layers.map f } : Device σ).layer? id =
      (d.layer? id).map f := fun id => Arena.get?_map d.layers f id.toHandle
  have hwiring : ({ d with applyCount, layers := d.layers.map f } : Device σ).wiring = d.wiring := by
    simp only [wiring, Wiring.mk.injEq]
    refine ⟨trivial, funext fun id => ?_, rfl⟩
    rw [hlayer, Option.map_map]
    exact Option.map_congr fun l _ => hplace l
  refine ⟨⟨fun hd => hd.of_wiring hwiring (Arena.wellFormed_map hd.layers f) hd.outputs, hwiring,
    fun id => ?_, fun _ => rfl⟩, refl_of (Session.Reports []) _⟩
  rw [hlayer, Option.map_map]
  exact Option.map_congr fun l _ => hlook l

end Edits

theorem quiet_onSession {α : Type} {x : SessionM σ α} (hx : Stays (Session.Reports []) x) :
    Stays Quiet (onSession x) := by
  intro d
  rw [ensures_onSession]
  exact (hx d.session).imp fun _ h => quiet_session h

theorem quiet_log (severity : Severity) (note : Note) : Stays Quiet (log (σ := σ) severity note) :=
  quiet_onSession (Session.silent_emit rfl)

theorem quiet_editLayer {id : LayerId} {f : Layer → Layer} (hplace : ∀ l, (f l).place = l.place)
    (hlook : ∀ l, (f l).look = l.look) : Stays Quiet (editLayer (σ := σ) id fun l => .ok (f l)) := by
  intro d
  simp only [editLayer, ensures_bind, ensures_layer, ensures_modify]
  refine ⟨fun l hl => quiet_withLayer (fun l' hl' => ?_) fun l' hl' => ?_, fun _ => refl_of Quiet d⟩
  · obtain rfl := Option.some.inj (hl.symm.trans hl')
    exact hplace l
  · obtain rfl := Option.some.inj (hl.symm.trans hl')
    exact hlook l

/-- A loop that edits the listed layers, one after the other, has edited each of them once if editing
twice is the same as editing once. -/
theorem ensures_forM_layers {d : Device σ} {I : Device σ → Prop} {f : LayerId → DeviceM σ PUnit}
    {g : Layer → Layer} {ids : List LayerId} (hg : ∀ l, g (g l) = g l)
    (hf : ∀ id ∈ ids, ∀ d₁, I d₁ → (d₁.layer? id).isSome = (d.layer? id).isSome →
      Ensures (f id) d₁ (fun _ d₂ => I d₂ ∧ ∀ id', d₂.layer? id' =
        if id' = id then (d₁.layer? id').map g else d₁.layer? id') (fun _ _ => False)) (hd : I d) :
    Ensures (ids.forM f) d (fun _ d' => I d' ∧ ∀ id, d'.layer? id =
      if id ∈ ids then (d.layer? id).map g else d.layer? id) (fun _ _ => False) := by
  -- Induction on the ids, over every device the earlier edits may have left.
  induction ids generalizing d with
  | nil =>
    rw [ensures_forM_nil]
    exact ⟨hd, fun id => by simp⟩
  | cons id ids ih =>
    rw [ensures_forM_cons]
    refine (hf id List.mem_cons_self d hd rfl).mono ?_ fun _ _ => False.elim
    rintro - d₁ ⟨hd₁, hlayers₁⟩
    -- No edit adds or removes a layer.
    have hlive : ∀ id, (d₁.layer? id).isSome = (d.layer? id).isSome := by
      intro id
      rw [hlayers₁]
      split <;> simp
    refine (ih (fun id' hid' d₂ hd₂ hsome => ?_) hd₁).mono ?_ fun _ _ => False.elim
    · exact hf id' (List.mem_cons_of_mem id hid') d₂ hd₂ (hsome.trans (hlive id'))
    · rintro - d' ⟨hd', hlayers⟩
      refine ⟨hd', fun id' => ?_⟩
      rw [hlayers, hlayers₁]
      -- A layer that is named twice is edited twice, which is the same as once.
      by_cases hid : id' = id
      · by_cases hmem : id' ∈ ids <;> simp [hid, Function.comp_def, hg]
      · simp [hid]

end Device

namespace Property.Bag

theorem wellKnown?_markClean (b : Bag) (p : WellKnown) :
    b.markClean.wellKnown? p = (b.wellKnown? p).map fun e => { e with cleanValue := e.value } := by
  simp only [wellKnown?, markClean, List.getElem?_map, Option.map_bind]
  rfl

theorem value?_markClean (b : Bag) (p : WellKnown) : b.markClean.value? p = b.value? p := by
  rw [value?, wellKnown?_markClean, Option.map_map]
  rfl

end Property.Bag

namespace Layer

theorem look_countUpdate (l : Layer) (periodElapsed : Bool) :
    (l.countUpdate periodElapsed).look = l.look := by
  unfold countUpdate
  cases periodElapsed <;> rfl

theorem place_countUpdate (l : Layer) (periodElapsed : Bool) :
    (l.countUpdate periodElapsed).place = l.place := by
  unfold countUpdate
  cases periodElapsed <;> rfl

theorem look_addCandidatePlane (l : Layer) (q : UInt32) : (l.addCandidatePlane q).look = l.look := by
  unfold addCandidatePlane
  split <;> rfl

theorem place_addCandidatePlane (l : Layer) (q : UInt32) :
    (l.addCandidatePlane q).place = l.place := by
  unfold addCandidatePlane
  split <;> rfl

theorem look_markClean (l : Layer) : l.markClean.look = l.look := by
  have hvalue : ∀ p, l.markClean.properties.value? p = l.properties.value? p :=
    l.properties.value?_markClean
  have hentry : ∀ p, (l.markClean.properties.wellKnown? p).map Property.Entry.value =
      (l.properties.wellKnown? p).map Property.Entry.value := hvalue
  simp only [look, zpos?, isVisible, hasFramebuffer, screenRect, rectOf, hvalue, hentry]
  rfl

theorem intersects_congr {l l' m m' : Layer} (hl : l.look = l'.look) (hm : m.look = m'.look) :
    l.intersects m = l'.intersects m' := by
  simp only [look, Prod.mk.injEq] at hl hm
  simp only [intersects, hl, hm]

end Layer

namespace Allocation

open Device

/-- A winner that is not the first element stands at its place in the list. -/
theorem getElem?_of_winner {α : Type} {beats : α → α → Bool} {x : α} {xs : List α} {best : α}
    {i : Nat} (h : winner beats x xs = (best, some i)) : xs[i]? = some best := by
  -- The invariant of the fold: a place, once taken, is the place of the winner so far.
  have hinv : ∀ i, (winner beats x xs).2 = some i → xs[i]? = some (winner beats x xs).1 := by
    unfold winner
    refine List.foldlRecOn (motive := fun b : α × Option Nat =>
      ∀ i, b.2 = some i → xs[i]? = some b.1)
      xs.zipIdx _ ?_ fun best hbest challenger hmem => ?_
    · simp
    · split
      · intro i hi
        rw [← Option.some.inj hi]
        exact List.mem_zipIdx_iff_getElem?.mp hmem
      · exact hbest
  rw [h] at hinv
  exact hinv i rfl

open scoped List in
/-- The winner and the first element change places. -/
theorem perm_of_winner {α : Type} {beats : α → α → Bool} {x : α} {xs : List α} {best : α} {i : Nat}
    (h : winner beats x xs = (best, some i)) : (best :: xs.set i x).Perm (x :: xs) := by
  obtain ⟨hi, hget⟩ := List.getElem?_eq_some_iff.mp (getElem?_of_winner h)
  -- The list is cut at the winner's place.
  have hset : xs.set i x = xs.take i ++ x :: xs.drop (i + 1) := by
    rw [List.set_eq_take_append_cons_drop, if_pos hi]
  have hxs : xs.take i ++ best :: xs.drop (i + 1) = xs := by
    rw [← hget, List.getElem_cons_drop hi, List.take_append_drop]
  calc best :: xs.set i x
    _ = best :: (xs.take i ++ x :: xs.drop (i + 1)) := by rw [hset]
    _ ~ best :: x :: (xs.take i ++ xs.drop (i + 1)) := List.perm_middle.cons best
    _ ~ x :: best :: (xs.take i ++ xs.drop (i + 1)) := List.Perm.swap _ _ _
    _ ~ x :: (xs.take i ++ best :: xs.drop (i + 1)) := (List.perm_middle.symm).cons x
    _ = x :: xs := by rw [hxs]

/-- Arranging a list loses and adds nothing. -/
theorem arrange_perm {α : Type} (beats : α → α → Bool) (xs : List α) :
    (arrange beats xs).1.Perm xs := by
  induction xs using arrange.induct beats with
  | case1 => rw [arrange]
  | case2 x xs best hwinner arranged changed harranged ih =>
    rw [arrange, hwinner]
    exact ih.cons x
  | case3 x xs best i hwinner ih =>
    rw [arrange, hwinner]
    exact (ih.cons best).trans (perm_of_winner hwinner)

/-- What one more count and the messages about it are kept by, counting updates is kept by. -/
theorem stays_updatePriorities {R : Device σ → Device σ → Prop} [IsPreorder (Device σ) R]
    (hcount : ∀ d : Device σ, R d d.counted)
    (htell : ∀ id old new, Stays R (onSession (σ := σ) (Session.emit (.priorityChange id old new)))) :
    Stays R (updatePriorities (σ := σ)) := by
  intro d
  simp only [updatePriorities, ensures_bind, ensures_get, ensures_set]
  -- Each change is told by an event of its own.
  have htells : Stays R ((priorityChanges d.layers d.periodElapsed).forM fun e =>
      onSession (Session.emit e) : DeviceM σ Unit) := by
    apply stays_forM
    intro e he
    obtain ⟨x, -, hx⟩ := List.mem_filterMap.mp he
    simp only at hx
    split at hx
    · cases hx
    · rw [← Option.some.inj hx]
      exact htell _ _ _
  exact (htells _).since (hcount d)

theorem quiet_updatePriorities : Stays Quiet (updatePriorities (σ := σ)) :=
  stays_updatePriorities
    (fun _ => quiet_mapLayers _ (fun l => l.place_countUpdate _) fun l => l.look_countUpdate _)
    fun _ _ _ => quiet_onSession (Session.silent_emit rfl)

/-- What metadata of layers and messages are kept by, asking for the metadata is kept by too. -/
theorem stays_refreshFramebuffers [Kernel σ] {R : Device σ → Device σ → Prop}
    [IsPreorder (Device σ) R]
    (hset : ∀ d id framebuffer, R d (d.withLayer id ({ · with framebuffer })))
    (hlog : ∀ severity note, Stays R (log (σ := σ) severity note)) (o : OutputId) :
    Stays R (refreshFramebuffers (σ := σ) o) := by
  apply (stays_output o).bind
  intro out
  apply stays_forM
  intro id _
  have hmodify : ∀ framebuffer, Stays R
      (modify (·.withLayer id ({ · with framebuffer })) : DeviceM σ Unit) :=
    fun framebuffer => stays_modify fun d => hset d id framebuffer
  apply stays_get.bind
  intro d
  -- The layer has no buffer, a known one, or one the driver fails on.
  split
  · split
    · exact hmodify none
    · apply stays_get.bind
      intro d
      -- Metadata that cannot be asked for is forgotten.
      split
      · exact hmodify _
      · exact (hlog _ _).bind fun _ => hmodify none
  · exact stays_pure _

theorem quiet_refreshFramebuffers [Kernel σ] (o : OutputId) :
    Stays Quiet (refreshFramebuffers (σ := σ) o) :=
  stays_refreshFramebuffers (fun _ _ _ => quiet_withLayer (fun _ _ => rfl) fun _ _ => rfl) quiet_log o

/-- What another order of an output's layers is kept by, putting them in order is kept by. -/
theorem stays_updateOrder {R : Device σ → Device σ → Prop} [IsPreorder (Device σ) R]
    {o : OutputId} (horder : ∀ d out layers, d.output? o = some out → layers.Perm out.layers →
      R d (d.withOutput o ({ · with layers }))) : Stays R (updateOrder (σ := σ) o) := by
  intro d
  simp only [updateOrder, ensures_bind, ensures_get, ensures_output, ensures_modify, ensures_pure]
  exact ⟨fun out hout => horder d out _ hout (arrange_perm _ out.layers), fun _ => refl_of R d⟩

theorem quiet_updateOrder (o : OutputId) : Stays Quiet (updateOrder (σ := σ) o) := by
  refine stays_updateOrder fun d out layers hout hperm => ?_
  refine quiet_withOutput (fun out' hout' => ?_) fun _ _ => rfl
  obtain rfl := Option.some.inj (hout.symm.trans hout')
  exact Prod.ext (Multiset.coe_eq_coe.mpr hperm) rfl

/-- Nothing keeps an apply from counting a kept allocation of an output that exists. -/
theorem countReuse_spec {d : Device σ} {o : OutputId} (ho : (d.output? o).isSome) :
    Ensures (countReuse o) d (fun _ => Quiet d) (fun _ _ => False) := by
  have hcount : ∀ n, Quiet d (d.withOutput o ({ · with reusedCount := n })) :=
    fun n => quiet_withOutput (fun _ _ => rfl) fun _ _ => rfl
  simp only [countReuse, ensures_bind, ensures_output, ensures_modify]
  refine ⟨fun out hout => ?_, fun hnone => by rw [hnone] at ho; cases ho⟩
  split
  · exact trans_of Quiet (hcount _) (quiet_session ⟨[_], rfl, rfl⟩)
  · exact hcount _

theorem resetReuse_spec {d : Device σ} {o : OutputId} (ho : (d.output? o).isSome) :
    Ensures (resetReuse o) d (fun _ => Quiet d) (fun _ _ => False) := by
  have hreset : Quiet d (d.withOutput o ({ · with reusedCount := 0 })) :=
    quiet_withOutput (fun _ _ => rfl) fun _ _ => rfl
  simp only [resetReuse, ensures_bind, ensures_output, ensures_modify]
  refine ⟨fun out hout => ?_, fun hnone => by rw [hnone] at ho; cases ho⟩
  split
  · exact trans_of Quiet hreset (quiet_session ⟨[_], rfl, rfl⟩)
  · exact hreset

end Allocation

namespace Frame

section Rules

variable {α : Type} {f : Frame σ} {E : Failure → Frame σ → Prop}

@[simp]
theorem ensures_onDevice (x : DeviceM σ α) {Q : α → Frame σ → Prop} :
    Ensures (onDevice x) f Q E ↔
      Ensures x f.device (fun a device => Q a { f with device })
        (fun e device => E e { f with device }) := by
  unfold Ensures onDevice
  cases x f.device <;> rfl

@[simp]
theorem ensures_onRequest (x : Staging Failure α) {Q : α → Frame σ → Prop} :
    Ensures (onRequest x) f Q E ↔
      Ensures x f.request (fun a request => Q a { f with request })
        (fun e request => E e { f with request }) := by
  unfold Ensures onRequest
  cases x f.request <;> rfl

theorem onDevice_of_ok {x : DeviceM σ α} {a : α} {device : Device σ} (h : x f.device = .ok a device) :
    onDevice x f = .ok a { f with device } := by
  simp only [onDevice, h]

theorem onRequest_of_ok {x : Staging Failure α} {a : α} {request : Request}
    (h : x f.request = .ok a request) : onRequest x f = .ok a { f with request } := by
  simp only [onRequest, h]

theorem onRequest_of_error {x : Staging Failure α} {e : Failure} {request : Request}
    (h : x f.request = .error e request) : onRequest x f = .error e { f with request } := by
  simp only [onRequest, h]

@[simp]
theorem ensures_attempt (x : FrameM σ α) {Q : Except Failure α → Frame σ → Prop} :
    Ensures (attempt x) f Q E ↔
      Ensures x f (fun a f' => Q (.ok a) f') (fun e f' => Q (.error e) f') := by
  unfold Ensures attempt
  cases x f <;> rfl

@[simp]
theorem ensures_rollback (cursor : Nat) {Q : Unit → Frame σ → Prop} :
    Ensures (rollback cursor) f Q E ↔ Q () { f with request := f.request.rollback cursor } := Iff.rfl

@[simp]
theorem ensures_emit (e : Event) {Q : Unit → Frame σ → Prop} :
    Ensures (emit e) f Q E ↔ Q () { f with device := { f.device with session :=
      { f.device.session with trace := e :: f.device.session.trace } } } := Iff.rfl

@[simp]
theorem ensures_now [Kernel σ] {Q : HostTime → Frame σ → Prop} :
    Ensures now f Q E ↔ Q (Kernel.now f.device.session.kernel).1 { f with device := { f.device with session :=
      { f.device.session with kernel := (Kernel.now f.device.session.kernel).2 } } } := Iff.rfl

end Rules

def Within (R : Device σ → Device σ → Prop) (f f' : Frame σ) : Prop := R f.device f'.device

section Within

variable {R : Device σ → Device σ → Prop} [IsPreorder (Device σ) R]

instance : IsPreorder (Frame σ) (Within R) where
  refl f := refl_of R f.device
  trans _ _ _ h h' := trans_of R h h'

omit [IsPreorder (Device σ) R] in
theorem stays_onDevice {α : Type} {x : DeviceM σ α} (hx : Stays R x) :
    Stays (Within R) (onDevice x) := by
  intro f
  rw [ensures_onDevice]
  exact hx f.device

theorem stays_onRequest {α : Type} (x : Staging Failure α) :
    Stays (Within R) (onRequest (σ := σ) x) := by
  intro f
  rw [ensures_onRequest]
  unfold Ensures
  cases x f.request <;> exact refl_of R f.device

omit [IsPreorder (Device σ) R] in
theorem stays_attempt {α : Type} {x : FrameM σ α} (hx : Stays (Within R) x) :
    Stays (Within R) (attempt x) := by
  intro f
  rw [ensures_attempt]
  exact hx f

theorem stays_rollback (cursor : Nat) : Stays (Within R) (rollback (σ := σ) cursor) :=
  fun f => refl_of R f.device

variable [Kernel σ] {flags : CommitFlags}
  (htest : ∀ request, Stays R (Device.onSession (Session.testCommit request flags)))
include htest

theorem stays_testCommit : Stays (Within R) (testCommit (σ := σ) flags) := by
  apply stays_get.bind
  intro f
  exact stays_onDevice (htest f.request)

/-- Whatever a test of the driver keeps, an attempt to keep an allocation keeps too. -/
theorem stays_tryReuse : Stays (Within R) (Allocation.tryReuse (σ := σ) flags) := by
  apply stays_get.bind
  intro f
  -- What was staged is taken back on every way that does not accept.
  apply (stays_attempt (stays_onRequest _)).bind
  intro staged
  split
  · exact stays_pure _
  · exact stays_throw _
  · apply (stays_attempt (stays_testCommit htest)).bind
    intro tested
    split
    · exact stays_pure _
    · exact (stays_rollback _).bind fun _ => stays_pure _
    · exact (stays_rollback _).bind fun _ => stays_throw _

end Within

end Frame

end Scanout
