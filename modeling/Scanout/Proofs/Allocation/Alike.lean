import Scanout.Proofs.Allocation.Changes
import Scanout.Proofs.Device.Alike
import Scanout.Proofs.Device.Run
import Scanout.Proofs.Search.Alike

namespace Scanout

variable {σ α β : Type} {R : σ → σ → Prop} {E : Failure → σ → σ → Prop}

namespace Frame

def Over (R : σ → σ → Prop) (f f' : Frame σ) : Prop :=
  ∃ device, f' = { f with device } ∧ f.device.Over R device

abbrev Agree (R : σ → σ → Prop) (E : Failure → σ → σ → Prop) (x y : FrameM σ α) : Prop :=
  Alike (Over R) (fun e => Over (E e)) x y

theorem alike_onDevice {x y : DeviceM σ α} (h : Device.Agree R E x y) :
    Agree R E (onDevice x) (onDevice y) := by
  rintro f _ ⟨device, rfl, hover⟩
  have hend := h _ _ hover
  simp only [onDevice]
  -- The request is no part of what the drivers are asked, so it is the same on both sides.
  generalize x f.device = r at hend ⊢
  generalize y device = r' at hend ⊢
  cases hend with
  | ok h => exact .ok ⟨_, rfl, h⟩
  | error h => exact .error ⟨_, rfl, h⟩

/-- What is done to the request alone leaves the drivers related, however it ends. -/
theorem alike_onRequest (x : Staging Failure α) :
    Agree R (fun _ => R) (onRequest x) (onRequest x) := by
  rintro f _ ⟨device, rfl, hover⟩
  simp only [onRequest]
  cases x f.request with
  | ok a request => exact .ok ⟨_, rfl, hover⟩
  | error e request => exact .error ⟨_, rfl, hover⟩

theorem alike_rollback (cursor : Nat) : Agree R E (rollback cursor) (rollback cursor) := by
  apply alike_modify
  rintro f _ ⟨device, rfl, hover⟩
  exact ⟨device, rfl, hover⟩

theorem alike_read {f g : Frame σ → FrameM σ β}
    (hf : ∀ x session, x.device.session.Over R session →
      Agree R E (f x) (g { x with device := { x.device with session } })) :
    Agree R E (get >>= f) (get >>= g) := by
  apply alike_get_bind
  rintro f _ ⟨_, rfl, session, rfl, hover⟩
  exact hf f session hover

/-- A failure that is handed on may have left the drivers in another relation. -/
theorem alike_attempt_bind {E' : Failure → σ → σ → Prop} {x y : FrameM σ α}
    {f g : Except Failure α → FrameM σ β} (h : Agree R E' x y)
    (hok : ∀ a, Agree R E (f (.ok a)) (g (.ok a)))
    (herror : ∀ e s s', Over (E' e) s s' →
      EndAlike (Over R) (fun e => Over (E e)) (f (.error e) s) (g (.error e) s')) :
    Agree R E (attempt x >>= f) (attempt y >>= g) := by
  intro s s' hs
  have hend := h s s' hs
  simp only [Bind.bind, EStateM.bind, attempt]
  -- A failure that is caught counts like a return, with the states that it has left.
  generalize x s = r at hend ⊢
  generalize y s' = r' at hend ⊢
  cases hend with
  | ok hs => exact hok _ _ _ hs
  | error he => exact herror _ _ _ he

end Frame

namespace Allocation

open Device

variable [Kernel σ] {flags : CommitFlags} (h : Kernel.Alike flags R E)

section Devices

omit [Kernel σ] in
theorem alike_updatePriorities : Device.Agree R E updatePriorities updatePriorities := by
  apply alike_read
  intro d session hover
  refine (alike_set ⟨session, rfl, hover⟩).bind fun _ => ?_
  exact alike_forM fun e _ => alike_emit e

include h

theorem alike_refreshFramebuffers (o : OutputId) :
    Device.Agree R E (refreshFramebuffers o) (refreshFramebuffers o) := by
  refine (alike_output h o).bind fun out => alike_forM fun id _ => ?_
  have hset : ∀ framebuffer, Device.Agree R E (modify (·.withLayer id ({ · with framebuffer })))
      (modify (·.withLayer id ({ · with framebuffer }))) :=
    fun _ => alike_withLayer id _
  apply alike_read
  intro d session _
  rw [layer?_session d session]
  cases d.layer? id with
  | none => exact alike_pure _
  | some l =>
    -- Both drivers are asked about the same framebuffer, and know the same of it.
    dsimp only
    cases framebufferId? l with
    | none => exact hset none
    | some fb =>
      apply alike_get_bind
      rintro d _ ⟨_, rfl, kernel, rfl, hR⟩
      dsimp only
      rw [h.framebuffer hR fb]
      cases Kernel.framebuffer d.session.kernel fb with
      | ok framebuffer => exact hset framebuffer
      | error e => exact (alike_log _ _).bind fun _ => hset none

theorem alike_updateOrder (o : OutputId) : Device.Agree R E (updateOrder o) (updateOrder o) := by
  apply alike_read
  intro d session _
  refine (alike_output h o).bind fun out => ?_
  exact (alike_withOutput o _).bind fun _ => alike_pure _

theorem alike_countReuse (o : OutputId) : Device.Agree R E (countReuse o) (countReuse o) := by
  refine (alike_output h o).bind fun out => ?_
  refine (alike_withOutput o _).bind fun _ => ?_
  split
  · exact alike_log _ _
  · exact alike_pure _

theorem alike_resetReuse (o : OutputId) : Device.Agree R E (resetReuse o) (resetReuse o) := by
  refine (alike_output h o).bind fun out => ?_
  refine (alike_withOutput o _).bind fun _ => ?_
  split
  · exact alike_log _ _
  · exact alike_pure _

theorem alike_markClean (o : OutputId) : Device.Agree R E (markClean o) (markClean o) := by
  refine (alike_output h o).bind fun out => ?_
  exact (alike_forM fun id _ => alike_withLayer id _).bind fun _ => alike_withOutput o _

theorem alike_clear (o : OutputId) : Device.Agree R E (clear o) (clear o) := by
  -- In three parts: what the last search found is forgotten, the layers are logged, the links are taken
  -- away.
  refine Alike.bind ?_ fun _ => Alike.bind ?_ fun _ => ?_
  · refine (alike_output h o).bind fun out => ?_
    refine (alike_forM fun id _ => alike_editLayer h id _).bind fun _ => ?_
    apply alike_modify
    -- The counter of tests starts anew in both sessions.
    rintro d _ ⟨_, rfl, kernel, rfl, hR⟩
    exact ⟨_, rfl, kernel, rfl, hR⟩
  · refine (alike_output h o).bind fun out => ?_
    refine (alike_log _ _).bind fun _ => alike_forM fun id _ => ?_
    apply alike_read
    intro d session _
    -- What is logged of a layer does not come from the driver.
    rw [layer?_session d session]
    split
    · split
      · exact (alike_log _ _).bind fun _ => alike_forM fun e _ => alike_log _ _
      · exact alike_pure _
    · exact alike_pure _
  · apply alike_read
    intro d session _
    exact alike_forM fun p _ => alike_setLink h p.id none

theorem alike_connect (o : OutputId) (free : Nat)
    (found : Option Search.Best × List (LayerId × UInt32)) :
    Device.Agree R E (connect o free found) (connect o free found) := by
  refine (alike_forM fun x _ => alike_editLayer h x.1 _).bind fun _ => ?_
  apply alike_get_bind
  -- The layers' candidate planes are noted from what the search said, not asked for again.
  rintro d _ ⟨_, rfl, kernel, rfl, -⟩
  refine (alike_log _ _).bind fun _ => ?_
  refine (alike_forM fun x _ => ?_).bind fun _ => ?_
  · exact (alike_setLink h x.1 (some x.2)).bind fun _ => alike_emit _
  · split
    · exact alike_log _ _
    · exact alike_pure _

end Devices

section Frames

include h

theorem over_of_failure {f f' : Frame σ} (hover : Frame.Over R f f') (e : Failure) :
    Frame.Over (E e) f f' := by
  obtain ⟨device, rfl, hover⟩ := hover
  exact ⟨device, rfl, Device.over_of_failure h hover e⟩

theorem alike_onRequest (x : Staging Failure α) :
    Frame.Agree R E (Frame.onRequest x) (Frame.onRequest x) := by
  intro f f' hover
  exact (Frame.alike_onRequest x f f' hover).mono_error fun e _ _ hover => over_of_failure h hover e

theorem alike_now : Frame.Agree R E Frame.now Frame.now :=
  Frame.alike_onDevice (alike_onSession (Session.alike_now h))

omit [Kernel σ] h in
theorem alike_emit (e : Event) : Frame.Agree R E (Frame.emit e) (Frame.emit e) :=
  Frame.alike_onDevice (Device.alike_emit e)

theorem alike_testCommit : Frame.Agree R E (Frame.testCommit flags) (Frame.testCommit flags) := by
  apply Frame.alike_read
  intro f session _
  exact Frame.alike_onDevice (alike_onSession (Session.alike_testCommit h f.request))

theorem alike_tryReuse : Frame.Agree R E (tryReuse flags) (tryReuse flags) := by
  apply Frame.alike_read
  intro f session _
  refine Frame.alike_attempt_bind (Frame.alike_onRequest _) (fun _ => ?_) fun e s s' hs => ?_
  · refine Frame.alike_attempt_bind (alike_testCommit h) (fun objection => ?_) fun e s s' hs => ?_
    · cases objection with
      | none => exact alike_pure _
      | some e => exact (Frame.alike_rollback _).bind fun _ => alike_pure _
    · -- The session has stopped, and the drivers are related as they are after that.
      obtain ⟨device, rfl, hover⟩ := hs
      exact .error ⟨device, rfl, hover⟩
  · -- A layer that does not fit its plane counts as an answer, any other failure ends the apply.
    have hthrow : Frame.Agree R E (throw e : FrameM σ (Option Errno)) (throw e) :=
      alike_throw fun _ _ hover => over_of_failure h hover e
    cases e with
    | error why =>
      cases why with
      | kernel e => exact alike_pure _ s s' hs
      | _ => exact hthrow s s' hs
    | _ => exact hthrow s s' hs

theorem alike_decideReuse (o : OutputId) (orderChanged : Bool) :
    Frame.Agree R E (decideReuse o flags orderChanged) (decideReuse o flags orderChanged) := by
  refine (Frame.alike_onDevice (alike_output h o)).bind fun out => ?_
  apply Frame.alike_read
  intro f session _
  dsimp only
  -- A blocker is seen without the driver, and only the test can tell the two apart.
  cases reuseBlocker f.device.layers out orderChanged with
  | some blocker => exact alike_pure _
  | none =>
    refine (alike_tryReuse h).bind fun objection => ?_
    cases objection <;> exact alike_pure _

theorem alike_search (o : OutputId) (options : ApplyOptions) (started : HostTime) :
    Frame.Agree R E (search o flags options started) (search o flags options started) := by
  rintro f _ ⟨_, rfl, _, rfl, kernel, rfl, hR⟩
  -- Output, planes and scene are the same, so what is compared is one search from two sessions.
  let d' : Device σ := { f.device with session := { f.device.session with kernel } }
  cases hout : f.device.output? o with
  | none =>
    have hout' : d'.output? o = none := hout
    simp only [search, hout, d', hout']
    exact .error (over_of_failure h ⟨_, rfl, _, rfl, kernel, rfl, hR⟩ _)
  | some out =>
    have hout' : d'.output? o = some out := hout
    have hscene : sceneOf d' out flags options started = sceneOf f.device out flags options started := by
      simp only [sceneOf, d', h.timebase hR]
    have hplanes : d'.planes = f.device.planes := rfl
    rw [search_of_output hout, search_of_output hout', hscene, hplanes]
    have hend := Search.alike_choose (s := sceneOf f.device out flags options started) h
      f.device.planes [] ⟨f.device.session, f.request, none, []⟩ ⟨d'.session, f.request, none, []⟩
      ⟨_, rfl, kernel, rfl, hR⟩
    generalize Search.choose _ f.device.planes [] ⟨f.device.session, _, _, _⟩ = r at hend ⊢
    generalize Search.choose _ f.device.planes [] ⟨d'.session, _, _, _⟩ = r' at hend ⊢
    cases hend with
    | ok hst =>
      obtain ⟨session, rfl, hover⟩ := hst
      exact .ok ⟨_, rfl, session, rfl, hover⟩
    | error hst =>
      obtain ⟨session, rfl, hover⟩ := hst
      exact .error ⟨_, rfl, session, rfl, hover⟩

theorem alike_settle (o : OutputId) (free : Nat)
    (found : Option Search.Best × List (LayerId × UInt32)) :
    Frame.Agree R E (settle o free found) (settle o free found) := by
  refine (Frame.alike_onDevice (alike_connect h o free found)).bind fun _ => ?_
  apply Frame.alike_read
  intro f session _
  exact (alike_onRequest h f.device.stageCurrent).bind fun _ => alike_pure _

theorem alike_allocate (o : OutputId) (options : ApplyOptions) (started : HostTime) :
    Frame.Agree R E (allocate o flags options started) (allocate o flags options started) := by
  rw [allocate_eq]
  refine (Frame.alike_onDevice (alike_clear h o)).bind fun _ => ?_
  apply Frame.alike_read
  intro f session _
  refine (alike_onRequest h (disables f.device)).bind fun _ => ?_
  exact (alike_search h o options started).bind fun found => alike_settle h o _ found

theorem alike_conclude (o : OutputId) (outcome : ReuseOutcome) (started : HostTime)
    (score : Option Nat) :
    Frame.Agree R E (conclude o outcome started score) (conclude o outcome started score) := by
  refine (Frame.alike_onDevice (alike_markClean h o)).bind fun _ => ?_
  refine (alike_now h).bind fun ended => ?_
  apply Frame.alike_read
  rintro f _ ⟨kernel, rfl, -⟩
  exact alike_emit _

theorem alike_carryOut (o : OutputId) (options : ApplyOptions) (started : HostTime)
    (outcome : ReuseOutcome) :
    Frame.Agree R E (carryOut o flags options started outcome)
      (carryOut o flags options started outcome) := by
  unfold carryOut
  split
  -- Reuse skips the search, so the drivers are asked nothing more but the time.
  · refine (Frame.alike_onDevice (alike_countReuse h o)).bind fun _ => ?_
    exact alike_conclude h o outcome started none
  · refine (Frame.alike_onDevice (alike_resetReuse h o)).bind fun _ => ?_
    exact (alike_allocate h o options started).bind fun score => alike_conclude h o outcome started score

/-- An apply takes the same course on drivers that answer alike. -/
theorem alike_apply (o : OutputId) (options : ApplyOptions) :
    Frame.Agree R E (Frame.apply o flags options) (Frame.apply o flags options) := by
  rw [apply_eq]
  -- One line for each phase, in the order in which an apply goes through them.
  refine (alike_now h).bind fun started => ?_
  refine (Frame.alike_onDevice (alike_output h o)).bind fun out => ?_
  refine (alike_emit _).bind fun _ => ?_
  refine (Frame.alike_onDevice ?_).bind fun orderChanged => ?_
  · refine alike_updatePriorities.bind fun _ => ?_
    exact (alike_refreshFramebuffers h o).bind fun _ => alike_updateOrder h o
  · refine (alike_decideReuse h o orderChanged).bind fun outcome => ?_
    exact (alike_emit _).bind fun _ => alike_carryOut h o options started outcome

end Frames

/-- What the driver keeps from answer to answer it keeps over an apply. -/
theorem maintains_apply {K : σ → Prop} {B : Failure → σ → Prop} (h : Kernel.Maintains flags K B)
    (o : OutputId) (options : ApplyOptions) {f : Frame σ} (hK : K f.device.session.kernel) :
    Ensures (Frame.apply o flags options) f (fun _ f' => K f'.device.session.kernel)
      fun e f' => B e f'.device.session.kernel := by
  refine ((alike_apply h.alike o options).ensures ⟨_, rfl, _, rfl, _, rfl, rfl, hK⟩).mono ?_ ?_
  · rintro _ f' ⟨_, -, _, -, _, -, -, hK'⟩
    exact hK'
  · rintro e f' ⟨_, -, _, -, _, -, -, hB⟩
    exact hB

end Allocation

def Operation.SparesDriver : Operation σ → Prop
  | .drive _ | .commit _ _ => False
  | _ => True

namespace Device

variable [Kernel σ]

theorem alike_perform (h : ∀ flags, Kernel.Alike flags R E) {op : Operation σ} (hop : op.SparesDriver) :
    Agree R E op.perform op.perform := by
  -- The two operations that act on the driver by themselves are excluded.
  cases op with
  | configure config => exact alike_edit fun _ _ => rfl
  | drive f => exact hop.elim
  | registerPlane q => exact alike_registerPlane (h {}) q
  | registerAllPlanes => exact alike_registerAllPlanes (h {})
  | unregisterPlane q => exact (alike_unregisterPlane (h {}) q).bind fun _ => alike_pure _
  | createOutput crtc => exact (alike_createOutput (h {}) crtc).bind fun _ => alike_pure _
  | destroyOutput o => exact alike_destroyOutput (h {}) o
  | createLayer o => exact (alike_createLayer (h {}) o).bind fun _ => alike_pure _
  | destroyLayer id => exact alike_destroyLayer (h {}) id
  | setProperty id name value => exact alike_editLayer (h {}) id fun l => l.setProperty name value
  | unsetProperty id name => exact alike_editLayer (h {}) id fun l => .ok (l.unsetProperty name)
  | forceComposition id => exact alike_editLayer (h {}) id fun l => .ok l.forceComposition
  | setCompositionLayer o id => exact alike_setCompositionLayer (h {}) o id
  | apply o request flags options =>
    intro d d' hover
    have hend := Allocation.alike_apply (h flags) o options ⟨d, request⟩ ⟨d', request⟩ ⟨d', rfl, hover⟩
    simp only [Operation.perform]
    generalize Frame.apply o flags options ⟨d, request⟩ = r at hend ⊢
    generalize Frame.apply o flags options ⟨d', request⟩ = r' at hend ⊢
    cases hend with
    | ok hover =>
      obtain ⟨device, rfl, hover⟩ := hover
      exact .ok hover
    | error hover =>
      obtain ⟨device, rfl, hover⟩ := hover
      exact .error hover
  | commit request flags => exact hop.elim

/-- Devices on drivers that answer alike stay the same but for these, whatever is done to both. -/
theorem over_afterAll (h : ∀ flags, Kernel.Alike flags R fun _ => R) {ops : List (Operation σ)}
    (hops : ∀ op ∈ ops, op.SparesDriver) {d d' : Device σ} (hover : Over R d d') :
    Over R (d.afterAll ops) (d'.afterAll ops) := by
  induction ops generalizing d d' with
  | nil => exact hover
  | cons op ops ih =>
    have hafter := (alike_perform h (hops op List.mem_cons_self) d d' hover).leftBy
    exact ih (fun op' hop' => hops op' (List.mem_cons_of_mem op hop')) hafter

end Device

end Scanout
