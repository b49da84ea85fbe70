import Scanout.Proofs.Device.Reach
import Scanout.Proofs.Property.Edits

/-! How often a change of a layer's framebuffer counts for its priority. An apply counts it on all layers of
the device, whatever output it is for, and only a successful apply on the layer's own output ends that. So a
layer is credited with no more than its changes and the applies that pass it over. -/

namespace Scanout

variable {σ : Type}

namespace Layer

/-- The framebuffer id; zero stands for none. -/
def framebufferId (l : Layer) : UInt64 := (l.properties.value? .fbId).getD 0

def isUpdated (l : Layer) : Bool := ((l.properties.wellKnown? .fbId).map Property.Entry.isDirty).getD false

def ledger (l : Layer) : OutputId × Property.Bag × Nat × Nat :=
  (l.output, l.properties, l.priority, l.pendingPriority)

theorem isUpdated_markClean (l : Layer) : l.markClean.isUpdated = false := by
  rw [isUpdated, markClean, Property.Bag.wellKnown?_markClean]
  cases l.properties.wellKnown? .fbId with
  | none => rfl
  | some e => simp [Property.Entry.isDirty]

theorem ledger_countUpdate (l : Layer) (periodElapsed : Bool) :
    (l.countUpdate periodElapsed).ledger = (l.output, l.properties,
      if periodElapsed then (l.pendingPriority + l.isUpdated.toNat, 0)
      else (l.priority, l.pendingPriority + l.isUpdated.toNat)) := by
  unfold countUpdate
  cases hupdated : l.isUpdated <;> rw [isUpdated] at hupdated <;> rw [hupdated] <;>
    cases periodElapsed <;> rfl

/-- Counting moves one update at most, and it goes where the period says. -/
theorem counts_of_ledger {l l₁ l' : Layer} {periodElapsed passed : Bool}
    (hledger : l₁.ledger = (l.countUpdate periodElapsed).ledger) (hpriority : l'.priority = l₁.priority)
    (hpending : l'.pendingPriority = l₁.pendingPriority) (hpassed : l'.isUpdated = true → passed = true) :
    l'.pendingPriority + l'.isUpdated.toNat + (if periodElapsed then l'.priority else 0) ≤
      l.pendingPriority + l.isUpdated.toNat + passed.toNat := by
  -- What is updated still needs to have been passed over.
  have hleft : l'.isUpdated.toNat ≤ passed.toNat := by
    cases hupdated : l'.isUpdated with
    | false => exact Nat.zero_le _
    | true => rw [hpassed hupdated]
  rw [ledger_countUpdate] at hledger
  simp only [ledger, Prod.mk.injEq] at hledger
  obtain ⟨-, -, hcounts⟩ := hledger
  -- At the end of a period what is pending is promoted, otherwise it stays.
  cases periodElapsed <;> simp only [Bool.false_eq_true, ↓reduceIte, Prod.mk.injEq] at hcounts ⊢ <;> omega

section Values

open Property

variable {l l' : Layer}

theorem framebufferId_eq (hl : l.properties.WellFormed) :
    l.framebufferId = ((l.properties.values? WellKnown.fbId.name).map Prod.fst).getD 0 := by
  rw [framebufferId, Bag.value?, Bag.wellKnown?_eq_find? hl, Bag.values?, Option.map_map]
  rfl

theorem isUpdated_eq (hl : l.properties.WellFormed) :
    l.isUpdated = ((l.properties.values? WellKnown.fbId.name).map fun v => v.1 != v.2).getD false := by
  rw [isUpdated, Bag.wellKnown?_eq_find? hl, Bag.values?, Option.map_map]
  rfl

/-- A framebuffer id that is set moves only if it changes. -/
theorem updates_of_set (hl : l.properties.WellFormed) {name : String} {value : UInt64}
    (hset : l'.properties = (l.properties.set name value).2) (h : l'.isUpdated = true) :
    l.isUpdated = true ∨ l'.framebufferId ≠ l.framebufferId := by
  have hl' : l'.properties.WellFormed := hset ▸ Bag.wellFormed_set hl name value
  -- The bag after the edit is known, so both sides are about the one before.
  rw [isUpdated_eq hl', hset, Bag.values?_set hl] at h
  rw [framebufferId_eq hl', hset, Bag.values?_set hl, isUpdated_eq hl, framebufferId_eq hl]
  split
  · rename_i hname
    rw [if_pos hname] at h
    -- The clean value is the one of before, or zero if the property is new.
    cases hbefore : l.properties.values? WellKnown.fbId.name with
    | none =>
      rw [hbefore] at h
      exact .inr (by simpa using h)
    | some v =>
      rw [hbefore] at h
      by_cases hvalue : value = v.1
      · exact .inl (by simpa [hvalue] using h)
      · exact .inr (by simpa using hvalue)
  · rename_i hname
    rw [if_neg hname] at h
    exact .inl h

theorem updates_of_remove (hl : l.properties.WellFormed) {name : String}
    (hremove : l'.properties = (l.properties.remove name).2) (h : l'.isUpdated = true) :
    l.isUpdated = true := by
  rw [isUpdated_eq (hremove ▸ Bag.wellFormed_remove hl name), hremove, Bag.values?_remove hl] at h
  split at h
  · cases h
  · rwa [isUpdated_eq hl]

end Values

end Layer

namespace Device

/-- The counts of all layers, what they count by, and the lists of the outputs are as before. -/
structure Tallies (d d' : Device σ) : Prop where
  ledgers : ∀ id, (d'.layer? id).map Layer.ledger = (d.layer? id).map Layer.ledger
  outputs : ∀ o out, d.output? o = some out → ∃ out', d'.output? o = some out' ∧ out.layers ⊆ out'.layers

instance : IsPreorder (Device σ) Tallies where
  refl _ := ⟨fun _ => rfl, fun _ out hout => ⟨out, hout, fun _ h => h⟩⟩
  trans _ _ _ h h' := by
    refine ⟨fun id => (h'.ledgers id).trans (h.ledgers id), fun o out hout => ?_⟩
    obtain ⟨out', hout', hlayers⟩ := h.outputs o out hout
    obtain ⟨out'', hout'', hlayers'⟩ := h'.outputs o out' hout'
    exact ⟨out'', hout'', fun _ hid => hlayers' (hlayers hid)⟩

theorem tallies_of_eq {d d' : Device σ} (hlayers : d'.layers = d.layers) (houtputs : d'.outputs = d.outputs) :
    Tallies d d' :=
  ⟨fun id => by simp only [layer?, hlayers], fun o out hout =>
    ⟨out, by simpa only [output?, houtputs] using hout, fun _ h => h⟩⟩

/-- Editing a layer outside of its ledger keeps the tallies. -/
theorem tallies_withLayer {d : Device σ} {id : LayerId} {f : Layer → Layer}
    (hf : ∀ l, d.layer? id = some l → (f l).ledger = l.ledger) : Tallies d (d.withLayer id f) := by
  refine ⟨fun id' => ?_, fun o out hout => ⟨out, hout, fun _ h => h⟩⟩
  rw [layer?_withLayer]
  split
  · rename_i hid
    subst hid
    cases hl : d.layer? id' with
    | none => rfl
    | some l => exact congrArg some (hf l hl)
  · rfl

theorem tallies_withOutput {d : Device σ} {o : OutputId} {f : Output → Output}
    (hf : ∀ out, d.output? o = some out → out.layers ⊆ (f out).layers) : Tallies d (d.withOutput o f) := by
  refine ⟨fun _ => rfl, fun o' out hout => ?_⟩
  rw [output?_withOutput]
  split
  · rename_i ho
    subst ho
    exact ⟨f out, by rw [hout, Option.map_some], hf out hout⟩
  · exact ⟨out, hout, fun _ h => h⟩

end Device

namespace Allocation

open Device

variable [Kernel σ] {o : OutputId} {flags : CommitFlags}

omit [Kernel σ] in
theorem tallies_updateOrder (o : OutputId) : Stays Tallies (updateOrder (σ := σ) o) := by
  refine stays_updateOrder fun d out layers hout hperm => ?_
  refine tallies_withOutput fun out' hout' => ?_
  obtain rfl := Option.some.inj (hout.symm.trans hout')
  exact hperm.symm.subset

theorem ledger_of_bare {l l' : Layer} (h : l'.bare = l.bare) : l'.ledger = l.ledger :=
  (congrArg Layer.ledger h :)

omit [Kernel σ] in
theorem tallies_onSession {α : Type} (x : SessionM σ α) : Stays Tallies (onSession x) := by
  intro d
  unfold Ensures onSession
  cases x d.session <;> exact tallies_of_eq rfl rfl

section Decision

variable {d₀ : Device σ}

theorem conclude_tallies (outcome : ReuseOutcome) (started : HostTime) (score : Option Nat) {f : Frame σ}
    (h : Tallies d₀ f.device) : Ensures (conclude o outcome started score) f
      (fun _ f' => ∃ d₁, Tallies d₀ d₁ ∧ Marks o d₁ f'.device) fun _ f' => Tallies d₀ f'.device := by
  -- There is an output to mark clean, or nothing is marked at all.
  cases hout : f.device.output? o with
  | some out =>
    have hlive : (f.device.output? o).isSome := Option.isSome_of_eq_some hout
    exact (conclude_spec f hlive outcome started score).mono
      (fun _ _ hmarks => ⟨f.device, h, hmarks.1⟩) fun _ _ => False.elim
  | none =>
    simp only [conclude, ensures_bind, Frame.ensures_onDevice, markClean, ensures_output, hout]
    exact ⟨fun _ hout => (by cases hout), fun _ => h⟩

/-- Once updates are counted, only the clean marks at the end matter. -/
theorem decision_tallies (f₀ : Frame σ) (options : ApplyOptions) (started : HostTime) (orderChanged : Bool)
    {f : Frame σ} (h : Tallies f₀.device f.device) :
    Ensures (do
        let outcome ← decideReuse o flags orderChanged
        Frame.emit (.reuse o outcome)
        carryOut o flags options started outcome) f
      (fun _ f' => ∃ d₁, Tallies f₀.device d₁ ∧ Marks o d₁ f'.device) fun _ => Frame.Within Tallies f₀ := by
  have hcount : ∀ (d : Device σ) o (reusedCount : Nat), Tallies d (d.withOutput o ({ · with reusedCount })) :=
    fun d o _ => tallies_withOutput fun _ _ _ h => h
  -- Nothing up to the conclusion touches a ledger.
  exact decision_until_conclude (fun d session _ _ => tallies_of_eq rfl rfl)
    (fun d id f hf => tallies_withLayer fun l hl => ledger_of_bare (hf l hl)) (fun d q _ => tallies_of_eq rfl rfl)
    (fun e => tallies_onSession _) hcount h started orderChanged
    fun outcome score _ => conclude_tallies outcome started score

end Decision

/-- An apply counts once and marks its layers clean if it succeeds; nothing else that it does matters for
what is counted. -/
theorem apply_tallies (d : Device σ) (o : OutputId) (flags : CommitFlags) (options : ApplyOptions)
    (request : Request) :
    Ensures (Frame.apply o flags options) ⟨d, request⟩
      (fun _ f' => (d.output? o).isSome ∧ ∃ d₁, Tallies d.counted d₁ ∧ Marks o d₁ f'.device)
      (fun _ f' => d.output? o = none ∧ Tallies d f'.device ∨
        (d.output? o).isSome ∧ Tallies d.counted f'.device) := by
  rw [apply_eq, ensures_bind, Frame.ensures_now, ensures_bind, Frame.ensures_onDevice, ensures_output]
  -- The clock and the first event touch the session only.
  refine ⟨fun out hout => ?_, fun hnone => .inl ⟨hnone, tallies_of_eq rfl rfl⟩⟩
  have hlive : (d.output? o).isSome := Option.isSome_of_eq_some hout
  rw [ensures_bind, Frame.ensures_emit, ensures_bind, Frame.ensures_onDevice, ensures_bind]
  refine (updatePriorities_spec _).mono ?_ fun _ _ => False.elim
  rintro - d₁ hidles
  have hcounted : Tallies d.counted d₁ := by
    obtain ⟨trace, rfl⟩ := hidles
    exact tallies_of_eq rfl rfl
  have hrefresh : Stays Tallies (refreshFramebuffers (σ := σ) o) :=
    stays_refreshFramebuffers (fun d id _ => tallies_withLayer fun _ _ => rfl)
      (fun _ _ => tallies_onSession _) o
  -- What is tallied from here on is the counted device.
  have hprepared := (hrefresh.bind fun _ => tallies_updateOrder o) d₁
  refine (hprepared.since hcounted).mono (fun orderChanged d₂ h₂ => ?_) fun _ _ h => .inr ⟨hlive, h⟩
  exact (decision_tallies ⟨d.counted, request⟩ (f := ⟨d₂, request⟩) options _ orderChanged h₂).mono
    (fun _ _ h => ⟨hlive, h⟩) fun _ _ h => .inr ⟨hlive, h⟩

end Allocation

namespace Layer

structure Renews (l l' : Layer) : Prop where
  pending : l'.pendingPriority = l.pendingPriority
  updates : l'.isUpdated = true → l.isUpdated = true ∨ l'.framebufferId ≠ l.framebufferId

theorem renews_setProperty {l l' : Layer} (hl : l.properties.WellFormed) {name : String} {value : UInt64}
    (h : l.setProperty name value = .ok l') : l.Renews l' := by
  refine ⟨?_, updates_of_set hl (properties_setProperty h).2⟩
  obtain ⟨-, _, _, rfl⟩ := exists_of_setProperty h
  rfl

theorem renews_unsetProperty {l : Layer} (hl : l.properties.WellFormed) (name : String) :
    l.Renews (l.unsetProperty name) :=
  ⟨rfl, fun h => .inl (updates_of_remove hl rfl h)⟩

theorem renews_forceComposition {l : Layer} (hl : l.properties.WellFormed) : l.Renews l.forceComposition := by
  unfold forceComposition
  split
  · exact ⟨rfl, .inl⟩
  · exact ⟨rfl, updates_of_set hl rfl⟩

def Rests (_ : LayerId) (l l' : Layer) : Prop :=
  l'.properties = l.properties ∧ l'.pendingPriority = l.pendingPriority

end Layer

namespace Device

/-- The framebuffer id of a layer; zero if there is no such layer. -/
def framebufferOf (d : Device σ) (id : LayerId) : UInt64 := (d.layer? id).elim 0 Layer.framebufferId

def pendingOf (d : Device σ) (id : LayerId) : Nat := (d.layer? id).elim 0 Layer.pendingPriority

def owed (d : Device σ) (id : LayerId) : Nat :=
  (d.layer? id).elim 0 fun l => l.pendingPriority + l.isUpdated.toNat

theorem pendingOf_le_owed (d : Device σ) (id : LayerId) : d.pendingOf id ≤ d.owed id := by
  rw [pendingOf, owed]
  cases d.layer? id with
  | none => exact Nat.le_refl 0
  | some l => exact Nat.le_add_right _ _

variable [Kernel σ]

def changesFramebuffer (id : LayerId) (d : Device σ) (op : Operation σ) : Bool :=
  match op with
  | .setProperty .. | .unsetProperty .. | .forceComposition .. =>
    d.framebufferOf id != (d.after op).framebufferOf id
  | _ => false

def promotes (id : LayerId) (d : Device σ) (op : Operation σ) : Nat :=
  match op with
  | .apply o _ _ _ =>
    if (d.output? o).isSome && d.periodElapsed then ((d.after op).layer? id).elim 0 Layer.priority else 0
  | _ => 0

/-- The operation is an apply that finds the framebuffer id of a layer moved and passes the layer over: it
is for another output, or it fails. -/
def passesOver (id : LayerId) (d : Device σ) (op : Operation σ) : Bool :=
  match op with
  | .apply o request flags options =>
    (d.output? o).isSome && (d.layer? id).any fun l => l.isUpdated &&
      !(l.output = o && succeeded (Frame.apply o flags options ⟨d, request⟩))
  | _ => false

def total (count : Device σ → Operation σ → Nat) : Device σ → List (Operation σ) → Nat
  | _, [] => 0
  | d, op :: ops => count d op + total count (d.after op) ops

variable {d : Device σ} {op : Operation σ} {id : LayerId}

/-- An edit of a layer changes no other one. -/
theorem exists_of_editLayer {id' : LayerId} {edit : Layer → Except Error Layer}
    (hop : op.perform = editLayer id' edit) {l' : Layer} (hl' : (d.after op).layer? id = some l') :
    ∃ l, d.layer? id = some l ∧ (l' = l ∨ edit l = .ok l') := by
  have hedit : Ensures op.perform d
      (fun _ d' => ∀ l', d'.layer? id = some l' → ∃ l, d.layer? id = some l ∧ (l' = l ∨ edit l = .ok l'))
      (fun _ d' => ∀ l', d'.layer? id = some l' → ∃ l, d.layer? id = some l ∧ (l' = l ∨ edit l = .ok l')) := by
    have hsame : ∀ l', d.layer? id = some l' → ∃ l, d.layer? id = some l ∧ (l' = l ∨ edit l = .ok l') :=
      fun l' hl' => ⟨l', hl', .inl rfl⟩
    simp only [hop, editLayer, ensures_bind, ensures_layer]
    refine ⟨fun l hl => ?_, fun _ => hsame⟩
    -- Only the named layer may have changed.
    split
    · rename_i l₁ hl₁
      rw [ensures_modify]
      intro l' hl'
      rw [layer?_withLayer] at hl'
      split at hl'
      · rename_i hid
        subst hid
        obtain ⟨_, -, rfl⟩ := Option.map_eq_some_iff.mp hl'
        exact ⟨l, hl, .inr hl₁⟩
      · exact hsame l' hl'
    · exact hsame
  exact hedit.leftBy l' hl'

/-- An edit that renews a layer owes at most the change of its framebuffer. -/
theorem owed_of_edit {id' : LayerId} {edit : Layer → Except Error Layer}
    (hop : op.perform = editLayer id' edit)
    (hedit : ∀ l l', d.layer? id = some l → edit l = .ok l' → l.Renews l') :
    (d.after op).owed id ≤ d.owed id + (d.framebufferOf id != (d.after op).framebufferOf id).toNat := by
  -- A layer that is gone owes nothing.
  cases hl' : (d.after op).layer? id with
  | none => simp [owed, hl']
  | some l' =>
    obtain ⟨l, hl, rfl | hok⟩ := exists_of_editLayer hop hl'
    · simp [owed, hl, hl']
    · obtain ⟨hpending, hupdates⟩ := hedit l l' hl hok
      simp only [owed, framebufferOf, hl, hl', Option.elim_some, hpending]
      -- Whether the layer is still to be counted depends on its mark.
      cases hupdated : l'.isUpdated with
      | false =>
        rw [Bool.toNat_false]
        omega
      | true =>
        rcases hupdates hupdated with hbefore | hchanged
        · simp [hbefore]
        · have hne : (l.framebufferId != l'.framebufferId) = true := by simpa using Ne.symm hchanged
          simp [hne]

/-- What is neither an edit nor an apply counts nothing. -/
theorem owed_of_rests (hop : op.Allowed (fun _ _ => True) Layer.Rests) (hd : d.WellFormed)
    (hpermits : d.Permits op) : (d.after op).owed id ≤ d.owed id := by
  cases hl' : (d.after op).layer? id with
  | none => simp [owed, hl']
  | some l' =>
    -- Either the operation changes what is there, or it adds a new layer.
    rcases changes_or_gains hop hd hpermits with hchanges | hgains
    · obtain ⟨l, hl, hproperties, hpending⟩ := hchanges.exists_layer (fun _ _ => ⟨rfl, rfl⟩)
        (fun h h' => ⟨h'.1.trans h.1, h'.2.trans h.2⟩) hl'
      simp [owed, hl, hl', hpending, Layer.isUpdated, hproperties]
    · rcases hgains.layers id l' hl' with hl | ⟨o, rfl⟩
      · simp [owed, hl, hl']
      · simp [owed, hl', Layer.isUpdated, Property.Bag.wellKnown?]

omit [Kernel σ] in
theorem Tallies.exists_layer {d d' : Device σ} (h : Tallies d d') {l' : Layer} (hl' : d'.layer? id = some l') :
    ∃ l, d.layer? id = some l ∧ l'.ledger = l.ledger := by
  have hledger := h.ledgers id
  rw [hl', Option.map_some] at hledger
  obtain ⟨l, hl, hsame⟩ := Option.map_eq_some_iff.mp hledger.symm
  exact ⟨l, hl, hsame.symm⟩

/-- An apply counts a layer once if its framebuffer id has moved. If the layer is not passed over, that ends
with the apply. -/
theorem owed_of_apply (hd : d.WellFormed) (o : OutputId) (request : Request) (flags : CommitFlags)
    (options : ApplyOptions) :
    (d.after (.apply o request flags options)).owed id + promotes id d (.apply o request flags options) ≤
      d.owed id + (passesOver id d (.apply o request flags options)).toNat := by
  have htallies := Allocation.apply_tallies d o flags options request
  have hafter := after_apply d o request flags options
  generalize hd' : d.after (.apply o request flags options) = d' at hafter
  simp only [promotes, passesOver, hd']
  cases hl' : d'.layer? id with
  | none => simp [owed, hl']
  | some l' =>
    -- Where the layer was counted, it is the clean mark that decides whether it was passed over.
    have hcounted : ∀ {d₁ : Device σ} {l₁ : Layer} {passed : Bool}, (d.output? o).isSome → Tallies d.counted d₁ →
        d₁.layer? id = some l₁ → l'.priority = l₁.priority → l'.pendingPriority = l₁.pendingPriority →
        (∀ l, d.layer? id = some l → l₁.ledger = (l.countUpdate d.periodElapsed).ledger →
          l'.isUpdated = true → (l.isUpdated && !(l.output = o && passed)) = true) →
        d'.owed id + (if (d.output? o).isSome && d.periodElapsed then l'.priority else 0) ≤ d.owed id +
          ((d.output? o).isSome && (d.layer? id).any fun l => l.isUpdated && !(l.output = o && passed)).toNat := by
      intro d₁ l₁ passed hlive h₁ hl₁ hpriority hpending hpassed
      obtain ⟨lc, hlc, hledger⟩ := h₁.exists_layer hl₁
      rw [layer?_counted] at hlc
      obtain ⟨l, hl, rfl⟩ := Option.map_eq_some_iff.mp hlc
      have hcounts := Layer.counts_of_ledger hledger hpriority hpending (hpassed l hl hledger)
      simpa only [owed, hl, hl', hlive, Option.elim_some, Option.any_some, Bool.true_and] using hcounts
    have hupdated : ∀ {l l₁ : Layer}, l₁.ledger = (l.countUpdate d.periodElapsed).ledger →
        l₁.isUpdated = l.isUpdated := fun {l l₁} hledger => by
      rw [Layer.ledger_countUpdate] at hledger
      have hproperties : l₁.properties = l.properties := congrArg (·.2.1) hledger
      rw [Layer.isUpdated, Layer.isUpdated, hproperties]
    -- A failed apply has counted, unless there was no such output.
    unfold Ensures at htallies
    cases hrun : Frame.apply o flags options ⟨d, request⟩ with
    | error e f =>
      rw [hrun] at htallies hafter
      obtain rfl : d' = f.device := hafter
      rcases htallies with ⟨hdead, h⟩ | ⟨hlive, h⟩
      · obtain ⟨l, hl, hledger⟩ := h.exists_layer hl'
        simp only [Layer.ledger, Prod.mk.injEq] at hledger
        simp [owed, hl, hl', hdead, hledger, Layer.isUpdated]
      · refine hcounted hlive h hl' rfl rfl fun l _ hledger hl'updated => ?_
        simp [succeeded, ← hupdated hledger, hl'updated]
    -- A successful one has marked the layers of its output.
    | ok _ f =>
      rw [hrun] at htallies hafter
      obtain rfl : d' = f.device := hafter
      obtain ⟨hlive, d₁, h, hmarks⟩ := htallies
      rcases hmarks.layers id with hsame | ⟨-, hmarked⟩
      · refine hcounted hlive h (hsame.symm.trans hl') rfl rfl fun l hl hledger hl'updated => ?_
        have hother : l.output ≠ o := by
          rintro rfl
          obtain ⟨out, hout, hid⟩ := output_of_layer hd hl
          obtain ⟨out₁, hout₁, hlists⟩ := h.outputs l.output out hout
          -- The output lists the layer to the end, so it is marked clean.
          have hclean := hmarks.marked out₁ hout₁ id (hlists hid)
          rw [← hsame, hl', Option.map_some, Option.some.injEq] at hclean
          rw [hclean, Layer.isUpdated_markClean] at hl'updated
          cases hl'updated
        simp [hother, ← hupdated hledger, hl'updated]
      -- A layer that was marked has nothing left to count.
      · rw [hl'] at hmarked
        obtain ⟨l₁, hl₁, rfl⟩ := Option.map_eq_some_iff.mp hmarked.symm
        refine hcounted hlive h hl₁ rfl rfl fun l _ _ hl'updated => ?_
        rw [Layer.isUpdated_markClean] at hl'updated
        cases hl'updated

/-- Each operation pays for what it promotes, by a change of the framebuffer or by passing over. -/
theorem owed_after (hd : d.Reachable) (hpermits : d.Permits op) (id : LayerId) :
    (d.after op).owed id + promotes id d op ≤
      d.owed id + (changesFramebuffer id d op).toNat + (passesOver id d op).toNat := by
  have hbag : ∀ {l}, d.layer? id = some l → l.properties.WellFormed := hd.wellFormed_properties
  -- Apart from an apply only edits of layers count, and what adds layers.
  cases op with
  | apply o request flags options => exact owed_of_apply hd.wellFormed o request flags options
  | setProperty id' name value =>
    exact owed_of_edit rfl fun l l' hl hl' => Layer.renews_setProperty (hbag hl) hl'
  | unsetProperty id' name =>
    have hop : (Operation.unsetProperty (σ := σ) id' name).perform =
        editLayer id' fun l => .ok (l.unsetProperty name) := rfl
    refine owed_of_edit hop fun l l' hl hl' => ?_
    cases hl'
    exact Layer.renews_unsetProperty (hbag hl) name
  | forceComposition id' =>
    have hop : (Operation.forceComposition (σ := σ) id').perform =
        editLayer id' fun l => .ok l.forceComposition := rfl
    refine owed_of_edit hop fun l l' hl hl' => ?_
    cases hl'
    exact Layer.renews_forceComposition (hbag hl)
  | drive f =>
    exact owed_of_rests ⟨fun _ => trivial, fun _ _ => ⟨rfl, rfl⟩, fun _ => trivial⟩ hd.wellFormed hpermits
  | commit request flags =>
    exact owed_of_rests ⟨fun _ => trivial, fun _ _ => ⟨rfl, rfl⟩, fun _ => trivial⟩ hd.wellFormed hpermits
  | _ => exact owed_of_rests ⟨fun _ => trivial, fun _ _ => ⟨rfl, rfl⟩, trivial⟩ hd.wellFormed hpermits

/-- The same over a whole run: the amounts add up along it. -/
theorem Run.owed_le {ops : List (Operation σ)} {d' : Device σ} (h : Run Permits d ops d') (hd : d.Reachable)
    (id : LayerId) : d'.owed id + total (promotes id) d ops ≤ d.owed id +
      total (fun d op => (changesFramebuffer id d op).toNat) d ops +
      total (fun d op => (passesOver id d op).toNat) d ops := by
  -- Induction on the run, each step with its own balance.
  induction h with
  | nil => exact Nat.le_refl _
  | cons hpermits _ ih =>
    have hfirst := owed_after hd hpermits id
    have hrest := ih (hd.after hpermits)
    simp only [total]
    omega

/-- Over any run a layer is credited with no more updates than its framebuffer id has changed, together
with the applies that passed it over while the id had moved. -/
theorem credited_le {kernel : σ} {config : Config} {crtcs : List UInt32} {ops : List (Operation σ)}
    {d' : Device σ} (h : Run Permits { session := { kernel }, config, crtcs } ops d') (id : LayerId) :
    d'.pendingOf id + total (promotes id) { session := { kernel }, config, crtcs } ops ≤
      total (fun d op => (changesFramebuffer id d op).toNat) { session := { kernel }, config, crtcs } ops +
      total (fun d op => (passesOver id d op).toNat) { session := { kernel }, config, crtcs } ops := by
  have hfresh : Reachable ({ session := { kernel }, config, crtcs } : Device σ) :=
    ⟨kernel, config, crtcs, [], .nil⟩
  have howed := h.owed_le hfresh id
  -- A fresh device owes nothing.
  have hnone : ({ session := { kernel }, config, crtcs } : Device σ).owed id = 0 := rfl
  have hpending := d'.pendingOf_le_owed id
  omega

/-- A layer of the first output gets one framebuffer; then the second output is applied twice. -/
def shownElsewhere : List (Operation Scripted) :=
  [.registerAllPlanes, .createOutput 1, .createOutput 2, .createLayer .first,
    .setProperty ⟨⟨0, 0⟩⟩ "FB_ID" 1, .apply .second {} {} {}, .apply .second {} {} {}]

/-- The device that this happens to; a period is two applies. -/
def shortPeriod : Device Scripted :=
  { session := { kernel := .twoPipes }, config := { priorityPeriod := 2 }, crtcs := [1, 2] }

theorem credited_shownElsewhere :
    total (promotes ⟨⟨0, 0⟩⟩) shortPeriod shownElsewhere = 2 ∧
      (shortPeriod.afterAll shownElsewhere).pendingOf ⟨⟨0, 0⟩⟩ +
          total (promotes ⟨⟨0, 0⟩⟩) shortPeriod shownElsewhere ≤
        total (fun d op => (changesFramebuffer ⟨⟨0, 0⟩⟩ d op).toNat) shortPeriod shownElsewhere +
        total (fun d op => (passesOver ⟨⟨0, 0⟩⟩ d op).toNat) shortPeriod shownElsewhere :=
  ⟨by decide +kernel, credited_le (run_afterAll (by decide +kernel)) ⟨⟨0, 0⟩⟩⟩

/-- One change may count more than once: an apply on another output credits a layer, but does not mark it
clean. -/
theorem not_forall_credited_le : ¬ ∀ (kernel : Scripted) (config : Config) (crtcs : List UInt32)
    (ops : List (Operation Scripted)) (d' : Device Scripted) (id : LayerId),
    Run Permits { session := { kernel }, config, crtcs } ops d' →
      d'.pendingOf id + total (promotes id) { session := { kernel }, config, crtcs } ops ≤
        total (fun d op => (changesFramebuffer id d op).toNat)
          { session := { kernel }, config, crtcs } ops := by
  intro h
  have hrun : Run Permits shortPeriod shownElsewhere (shortPeriod.afterAll shownElsewhere) :=
    run_afterAll (by decide +kernel)
  have hle := h .twoPipes { priorityPeriod := 2 } [1, 2] shownElsewhere _ ⟨⟨0, 0⟩⟩ hrun
  revert hle
  decide +kernel

end Device

end Scanout
