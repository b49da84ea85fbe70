import Scanout.Proofs.Allocation.Changes
import Scanout.Proofs.Allocation.Prepare

namespace Scanout

variable {σ : Type}

def Layer.lasting (l : Layer) : Layer := { l with plane := none, priority := 0, pendingPriority := 0 }

theorem Layer.lasting_countUpdate (l : Layer) (periodElapsed : Bool) :
    (l.countUpdate periodElapsed).lasting = l.lasting := by
  unfold countUpdate
  cases periodElapsed <;> rfl

theorem Layer.output_addCandidatePlane (l : Layer) (q : UInt32) :
    (l.addCandidatePlane q).output = l.output := congrArg Prod.fst (l.place_addCandidatePlane q)

namespace Device

def Owns (d : Device σ) (o : OutputId) (id : LayerId) : Prop :=
  (d.layer? id).map Layer.output = some o

/-- The other outputs are as before, and so are their layers up to planes and counts. -/
structure LeavesOthers (o : OutputId) (d d' : Device σ) : Prop where
  outputs : ∀ o' ≠ o, d'.output? o' = d.output? o'
  layers : ∀ id, d.Owns o id ∧ d'.Owns o id ∨
    (d'.layer? id).map Layer.lasting = (d.layer? id).map Layer.lasting

theorem owns_of_lasting {d d' : Device σ} {o : OutputId} {id : LayerId}
    (h : (d'.layer? id).map Layer.lasting = (d.layer? id).map Layer.lasting) (hown : d.Owns o id) :
    d'.Owns o id := by
  have houtput := congrArg (Option.map Layer.output) h
  rw [Option.map_map, Option.map_map] at houtput
  exact houtput.trans hown

instance (o : OutputId) : IsPreorder (Device σ) (LeavesOthers o) where
  refl _ := ⟨fun _ _ => rfl, fun _ => .inr rfl⟩
  trans d d' d'' h h' := by
    refine ⟨fun o' ho' => (h'.outputs o' ho').trans (h.outputs o' ho'), fun id => ?_⟩
    -- A layer that is edited stays with its output.
    rcases h.layers id with ⟨hown, hown'⟩ | hsame <;> rcases h'.layers id with ⟨hown₁, hown''⟩ | hsame'
    · exact .inl ⟨hown, hown''⟩
    · exact .inl ⟨hown, owns_of_lasting hsame' hown'⟩
    · exact .inl ⟨owns_of_lasting hsame.symm hown₁, hown''⟩
    · exact .inr (hsame'.trans hsame)

structure Confined (o : OutputId) (d d' : Device σ) : Prop extends LeavesOthers o d d' where
  kernel : d'.session.kernel = d.session.kernel

instance (o : OutputId) : IsPreorder (Device σ) (Confined o) where
  refl d := ⟨refl_of (LeavesOthers o) d, rfl⟩
  trans _ _ _ h h' :=
    ⟨trans_of (LeavesOthers o) h.toLeavesOthers h'.toLeavesOthers, h'.kernel.trans h.kernel⟩

section Steps

variable {d d' : Device σ} {o : OutputId}

theorem LeavesOthers.owns (h : LeavesOthers o d d') {id : LayerId} (hown : d.Owns o id) :
    d'.Owns o id := by
  rcases h.layers id with ⟨-, hown'⟩ | hsame
  · exact hown'
  · exact owns_of_lasting hsame hown

theorem leavesOthers_session (d : Device σ) (session : Session σ) :
    LeavesOthers o d { d with session } := ⟨fun _ _ => rfl, fun _ => .inr rfl⟩

theorem confined_of_layers (hkernel : d'.session.kernel = d.session.kernel)
    (houtputs : d'.outputs = d.outputs)
    (hlayers : ∀ id, (d'.layer? id).map Layer.lasting = (d.layer? id).map Layer.lasting) :
    Confined o d d' :=
  ⟨⟨fun o' _ => by simp only [output?, houtputs], fun id => .inr (hlayers id)⟩, hkernel⟩

theorem confined_emit (e : Event) : Stays (Confined o) (onSession (σ := σ) (Session.emit e)) :=
  fun _ => confined_of_layers rfl rfl fun _ => rfl

/-- An edit of a layer of the output that leaves it there does not concern the others. -/
theorem confined_of_edit {id : LayerId} {f : Layer → Layer} (hown : d.Owns o id)
    (hf : ∀ l, (f l).output = l.output) (hkernel : d'.session.kernel = d.session.kernel)
    (houtputs : d'.outputs = d.outputs)
    (hlayers : ∀ id', d'.layer? id' = if id' = id then (d.layer? id').map f else d.layer? id') :
    Confined o d d' := by
  -- The edited layer is one of the output's, and the edit leaves it there.
  refine ⟨⟨fun o' _ => by simp only [output?, houtputs], fun id' => ?_⟩, hkernel⟩
  rw [Owns, Owns, hlayers]
  split
  · rename_i hid
    subst hid
    refine .inl ⟨hown, ?_⟩
    rw [Option.map_map]
    exact (Option.map_congr fun l _ => hf l).trans hown
  · exact .inr rfl

theorem confined_withLayer {id : LayerId} {f : Layer → Layer} (hown : d.Owns o id)
    (hf : ∀ l, (f l).output = l.output) : Confined o d (d.withLayer id f) :=
  confined_of_edit hown hf rfl rfl (d.layer?_withLayer id f)

theorem confined_withOutput (d : Device σ) (o : OutputId) (f : Output → Output) :
    Confined o d (d.withOutput o f) := by
  refine ⟨⟨fun o' ho' => ?_, fun _ => .inr rfl⟩, rfl⟩
  rw [output?_withOutput, if_neg ho']

theorem confined_link (d : Device σ) (q : UInt32) (id : LayerId) : Confined o d (d.link q id) := by
  refine rel_link (R := Confined o) (fun d q layer => confined_of_layers rfl rfl fun _ => rfl)
    (fun d id plane => confined_of_layers rfl rfl fun id' => ?_) d q id
  rw [layer?_withLayer]
  split
  · rw [Option.map_map]
    rfl
  · rfl

theorem confined_cleared (d : Device σ) (o : OutputId) : Confined o d (d.cleared o) := by
  refine ⟨⟨fun _ _ => rfl, fun id => ?_⟩, rfl⟩
  rw [Owns, Owns, layer?_cleared]
  cases hl : d.layer? id with
  | none => exact .inr rfl
  | some l =>
    by_cases ho : l.output = o
    · exact .inl ⟨congrArg some ho, by simp [ho]⟩
    · exact .inr (by simp [ho])

/-- A loop over layers of the output is confined to it if each of its rounds is. -/
theorem confined_forM {α : Type} {f : α → DeviceM σ PUnit} {g : α → LayerId} {xs : List α}
    (hxs : ∀ x ∈ xs, d.Owns o (g x))
    (hf : ∀ x d, d.Owns o (g x) →
      Ensures (f x) d (fun _ => Confined o d) (fun _ => Confined o d)) :
    Ensures (xs.forM f) d (fun _ => Confined o d) (fun _ => Confined o d) := by
  refine ensures_forM (fun x hx d₁ h₁ => ?_) (refl_of (Confined o) d)
  exact (hf x d₁ (h₁.owns (hxs x hx))).since h₁

theorem confined_editLayer {id : LayerId} (hown : d.Owns o id) {f : Layer → Layer}
    (hf : ∀ l, (f l).output = l.output) :
    Ensures (editLayer id fun l => .ok (f l)) d (fun _ => Confined o d) (fun _ => Confined o d) := by
  simp only [editLayer, ensures_bind, ensures_layer, ensures_modify]
  refine ⟨fun l hl => confined_of_edit hown hf rfl rfl fun id' => ?_, fun _ => refl_of (Confined o) d⟩
  rw [layer?_withLayer]
  split
  -- The layer is the one that was read.
  · rename_i hid
    rw [hid, hl]
    rfl
  · rfl

theorem WellFormed.owns (hd : d.WellFormed) {out : Output} (hout : d.output? o = some out)
    {id : LayerId} (hid : id ∈ out.layers) : d.Owns o id := by
  obtain ⟨l, hl, ho⟩ := layer_of_output hd hout hid
  simp [Owns, hl, ho]

end Steps

end Device

namespace Allocation

open Device

variable {d : Device σ} {o : OutputId}

theorem confined_updatePriorities : Stays (Confined o) (updatePriorities (σ := σ)) := by
  refine stays_updatePriorities (fun d => confined_of_layers rfl rfl fun id => ?_) fun _ _ _ => confined_emit _
  rw [layer?_counted, Option.map_map]
  exact Option.map_congr fun l _ => l.lasting_countUpdate d.periodElapsed

theorem confined_refreshFramebuffers [Kernel σ] (hd : d.WellFormed) :
    Ensures (refreshFramebuffers o) d (fun _ => Confined o d) (fun _ => Confined o d) := by
  simp only [refreshFramebuffers, ensures_bind, ensures_output]
  refine ⟨fun out hout => ?_, fun _ => refl_of (Confined o) d⟩
  refine confined_forM (g := id) (fun id hid => hd.owns hout hid) fun id d₁ hown => ?_
  refine (refreshFramebuffer_spec d₁ id).mono ?_ fun _ _ => False.elim
  rintro - d₂ ⟨⟨hkernel, houtputs⟩, hlayers⟩
  refine confined_of_edit hown ?_ hkernel houtputs hlayers
  exact fun _ => rfl

theorem confined_updateOrder : Stays (Confined o) (updateOrder (σ := σ) o) :=
  stays_updateOrder fun d _ _ _ _ => confined_withOutput d o _

/-- Until the decision, only counts of the other outputs' layers change. -/
theorem confined_prepare [Kernel σ] (hd : d.WellFormed) :
    Ensures (do updatePriorities; refreshFramebuffers o; updateOrder o) d
      (fun _ => Confined o d) (fun _ => Confined o d) := by
  -- None of the three steps leaves the output.
  rw [ensures_bind]
  refine ((confined_updatePriorities d).and (quiet_updatePriorities d)).mono ?_ fun _ _ h => h.1
  rintro - d₁ ⟨h₁, hquiet₁⟩
  have hd₁ := hquiet₁.wellFormed hd
  have hrest : Ensures (do refreshFramebuffers o; updateOrder o) d₁ (fun _ => Confined o d₁)
      (fun _ => Confined o d₁) :=
    (confined_refreshFramebuffers hd₁).bind fun _ d₂ _ => confined_updateOrder d₂
  exact hrest.since h₁

theorem confined_countReuse : Stays (Confined o) (countReuse (σ := σ) o) := by
  apply (stays_output o).bind
  intro out
  refine Stays.bind (stays_modify fun d => confined_withOutput d o _) fun _ => ?_
  split
  · exact confined_emit _
  · exact stays_pure _

theorem confined_resetReuse : Stays (Confined o) (resetReuse (σ := σ) o) := by
  apply (stays_output o).bind
  intro out
  refine Stays.bind (stays_modify fun d => confined_withOutput d o _) fun _ => ?_
  split
  · exact confined_emit _
  · exact stays_pure _

/-- What a search answers is noted and linked on layers of the output. -/
theorem confined_connect {free : Nat} {found : Option Search.Best × List (LayerId × UInt32)}
    (hhints : ∀ h ∈ found.2, d.Owns o h.1)
    (hlinks : ∀ x ∈ (found.1.map fun b => assignments b.path).getD [], d.Owns o x.2) :
    Ensures (connect o free found) d (fun _ => Confined o d) (fun _ => Confined o d) := by
  -- An assignment links a layer of the output, and tells it.
  have hassign : ∀ (x : UInt32 × LayerId) (d : Device σ), d.Owns o x.2 →
      Ensures (assign o x.1 x.2) d (fun _ => Confined o d) (fun _ => Confined o d) := by
    intro x d hown
    have hlive : (d.layer? x.2).isSome := by
      rw [← Option.isSome_map, hown]
      rfl
    simp only [assign, ensures_bind, ensures_setLink_some hlive]
    exact (confined_emit _ _).since (confined_link d x.1 x.2)
  unfold connect
  -- Hints and links are both of layers the output owns.
  apply Ensures.bind
  · exact confined_forM hhints fun x d₁ hown =>
      confined_editLayer hown fun l => l.output_addCandidatePlane x.2
  · intro _ d₁ h₁
    refine (stays_get d₁).bind fun _ d₂ h₂ => (confined_emit _ d₂).bind fun _ d₃ h₃ => ?_
    have h := trans_of (Confined o) h₁ (trans_of (Confined o) h₂ h₃)
    refine (confined_forM (fun x hx => h.owns (hlinks x hx)) hassign).bind fun _ d₄ _ => ?_
    split
    · exact confined_emit _ d₄
    · exact stays_pure _ d₄

theorem confined_settle {free : Nat} {found : Option Search.Best × List (LayerId × UInt32)}
    (hhints : ∀ h ∈ found.2, d.Owns o h.1)
    (hlinks : ∀ x ∈ (found.1.map fun b => assignments b.path).getD [], d.Owns o x.2)
    (request : Request) :
    Ensures (settle o free found) ⟨d, request⟩ (fun _ f' => Confined o d f'.device)
      (fun _ f' => Confined o d f'.device) := by
  rw [settle, ensures_bind, Frame.ensures_onDevice]
  refine (confined_connect hhints hlinks).mono (fun _ d₁ h₁ => ?_) fun _ _ h₁ => h₁
  -- The links are staged on the request, whether that succeeds or not.
  simp only [ensures_bind, ensures_get, Frame.ensures_onRequest]
  cases hstage : d₁.stageCurrent request with
  | ok _ r =>
    rw [ensures_of_eq_ok hstage]
    exact h₁
  | error e r =>
    rw [ensures_of_eq_error hstage]
    exact h₁

theorem confined_markClean (hd : d.WellFormed) :
    Ensures (markClean o) d (fun _ => Confined o d) (fun _ => Confined o d) := by
  rw [markClean, ensures_bind, ensures_output]
  refine ⟨fun out hout => ?_, fun _ => refl_of (Confined o) d⟩
  refine (confined_forM (g := id) (fun id hid => hd.owns hout hid) fun id d₁ hown => ?_).bind ?_
  · exact confined_withLayer hown fun _ => rfl
  · exact fun _ d₁ _ => confined_withOutput d₁ o _

end Allocation

end Scanout
