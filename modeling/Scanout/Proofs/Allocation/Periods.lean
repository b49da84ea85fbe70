import Scanout.Proofs.Allocation.Priorities

/-! Counts within a priority period. Every apply counts itself and, on all layers, the framebuffers that have
changed; the one that completes a period starts these counts anew. So no count outgrows the period, which is
a 32-bit number. -/

namespace Scanout

variable {σ : Type}

namespace Layer

def counts (l : Layer) : Nat × Nat := (l.priority, l.pendingPriority)

/-- What a layer can have counted `n` applies after a promotion, if a period has `p` of them. -/
structure CountsWithin (p n : Nat) (l : Layer) : Prop where
  pending : l.pendingPriority ≤ n
  priority : l.priority ≤ p

section Counts

variable {p n : Nat} {l l' : Layer}

theorem CountsWithin.of_counts (h : l.CountsWithin p n) (hcounts : l'.counts = l.counts) :
    l'.CountsWithin p n := by
  have hpriority : l'.priority = l.priority := congrArg Prod.fst hcounts
  have hpending : l'.pendingPriority = l.pendingPriority := congrArg Prod.snd hcounts
  exact ⟨hpending ▸ h.pending, hpriority ▸ h.priority⟩

theorem countsWithin_of_none (h : l.counts = (0, 0)) : l.CountsWithin p n := by
  have hpriority : l.priority = 0 := congrArg Prod.fst h
  have hpending : l.pendingPriority = 0 := congrArg Prod.snd h
  exact ⟨hpending ▸ Nat.zero_le n, hpriority ▸ Nat.zero_le p⟩

theorem counts_countUpdate (l : Layer) (periodElapsed : Bool) : (l.countUpdate periodElapsed).counts =
    if periodElapsed then (l.pendingPriority + l.isUpdated.toNat, 0)
    else (l.priority, l.pendingPriority + l.isUpdated.toNat) :=
  congrArg (fun x => x.2.2) (l.ledger_countUpdate periodElapsed)

/-- An apply counts one update of a layer at most, so what it promotes at the end of a period is no more than
the applies of the period. -/
theorem CountsWithin.countUpdate (h : l.CountsWithin p n) (hn : n < p) (periodElapsed : Bool) :
    (l.countUpdate periodElapsed).CountsWithin p (if periodElapsed then 0 else n + 1) := by
  have hupdate : l.isUpdated.toNat ≤ 1 := Bool.toNat_le _
  have hpending : l.pendingPriority + l.isUpdated.toNat ≤ n + 1 := Nat.add_le_add h.pending hupdate
  have hcounts := l.counts_countUpdate periodElapsed
  -- The end of a period moves what is pending on; before it, what was promoted stays.
  cases periodElapsed with
  | true =>
    have hpromoted : (l.countUpdate true).priority = l.pendingPriority + l.isUpdated.toNat :=
      congrArg Prod.fst hcounts
    have hstart : (l.countUpdate true).pendingPriority = 0 := congrArg Prod.snd hcounts
    exact ⟨hstart.le, hpromoted ▸ hpending.trans hn⟩
  | false =>
    have hpriority : (l.countUpdate false).priority = l.priority := congrArg Prod.fst hcounts
    have hcounted : (l.countUpdate false).pendingPriority = l.pendingPriority + l.isUpdated.toNat :=
      congrArg Prod.snd hcounts
    exact ⟨hcounted ▸ hpending, hpriority ▸ h.priority⟩

theorem counts_setProperty {name : String} {value : UInt64} (h : l.setProperty name value = .ok l') :
    l'.counts = l.counts := by
  obtain ⟨-, _, _, rfl⟩ := exists_of_setProperty h
  rfl

theorem counts_forceComposition (l : Layer) : l.forceComposition.counts = l.counts := by
  unfold forceComposition
  split <;> rfl

end Counts

end Layer

namespace Device

/-- The counts of a device with period `p`. Fewer applies than that were made since priorities were last
promoted, and each layer has counted what is possible in as many. -/
structure Paced (p : UInt32) (d : Device σ) : Prop where
  period : d.config.priorityPeriod = p
  applies : d.applyCount < p.toNat
  layers : ∀ id l, d.layer? id = some l → l.CountsWithin p.toNat d.applyCount

def KeepsPace (p : UInt32) (d d' : Device σ) : Prop := d.Paced p → d'.Paced p

instance (p : UInt32) : IsPreorder (Device σ) (KeepsPace p) where
  refl _ := id
  trans _ _ _ h h' := h' ∘ h

section Steps

variable {p : UInt32} {d d' : Device σ}

/-- Another apply is counted, on the device and on its layers. -/
theorem Paced.counted (h : d.Paced p) : d.counted.Paced p := by
  refine ⟨h.period, ?_, fun id l' hl' => ?_⟩
  -- Whether a period ends now is a comparison of the count with its length.
  · have hcount : d.counted.applyCount = if d.periodElapsed then 0 else d.applyCount + 1 := rfl
    have hperiod : d.periodElapsed = true ↔ p.toNat ≤ d.applyCount + 1 := by
      rw [periodElapsed, h.period, decide_eq_true_iff]
    rw [hcount]
    split
    · exact Nat.zero_lt_of_lt h.applies
    -- Short of its end the period has room for this apply.
    · rename_i hongoing
      exact Nat.lt_of_not_le (mt hperiod.mpr hongoing)
  -- Each layer counts for itself.
  · rw [layer?_counted] at hl'
    obtain ⟨l, hl, rfl⟩ := Option.map_eq_some_iff.mp hl'
    exact (h.layers id l hl).countUpdate h.applies d.periodElapsed

/-- Where the device has counted what it had before, each layer need only have done so, or be new. -/
theorem keepsPace_of_layers (hconfig : d'.config = d.config) (hcount : d'.applyCount = d.applyCount)
    (hlayers : ∀ id l', d'.layer? id = some l' →
      (∃ l, d.layer? id = some l ∧ l'.counts = l.counts) ∨ l'.counts = (0, 0)) : KeepsPace p d d' := by
  intro h
  refine ⟨hconfig ▸ h.period, hcount ▸ h.applies, fun id l' hl' => ?_⟩
  rw [hcount]
  rcases hlayers id l' hl' with ⟨l, hl, hcounts⟩ | hnew
  · exact (h.layers id l hl).of_counts hcounts
  · exact Layer.countsWithin_of_none hnew

theorem keepsPace_of_eq (hconfig : d'.config = d.config) (hcount : d'.applyCount = d.applyCount)
    (hlayers : d'.layers = d.layers) : KeepsPace p d d' :=
  keepsPace_of_layers hconfig hcount fun id l' hl' => .inl ⟨l', by rwa [layer?, ← hlayers], rfl⟩

theorem keepsPace_of_talks (h : Talks d d') : KeepsPace p d d' := by
  obtain ⟨session, rfl⟩ := h
  exact keepsPace_of_eq rfl rfl rfl

/-- Editing a layer other than in its counts keeps the pace. -/
theorem keepsPace_withLayer {id : LayerId} {f : Layer → Layer}
    (hf : ∀ l, d.layer? id = some l → (f l).counts = l.counts) : KeepsPace p d (d.withLayer id f) := by
  refine keepsPace_of_layers rfl rfl fun id' l' hl' => ?_
  rw [layer?_withLayer] at hl'
  split at hl'
  · rename_i hid
    subst hid
    obtain ⟨l, hl, rfl⟩ := Option.map_eq_some_iff.mp hl'
    exact .inl ⟨l, hl, hf l hl⟩
  · exact .inl ⟨l', hl', rfl⟩

theorem keepsPace_remove (d : Device σ) (id : LayerId) :
    KeepsPace p d { d with layers := d.layers.remove id.toHandle } := by
  refine keepsPace_of_layers rfl rfl fun id' l' hl' => .inl ⟨l', ?_, rfl⟩
  rw [layer?, Arena.get?_remove] at hl'
  split at hl'
  · cases hl'
  · exact hl'

theorem keepsPace_unlink (d : Device σ) (q : UInt32) : KeepsPace p d (d.unlink q) :=
  rel_unlink (fun _ _ _ => keepsPace_of_eq rfl rfl rfl) (fun _ _ => keepsPace_withLayer fun _ _ => rfl) d q

theorem keepsPace_editLayer {id : LayerId} {edit : Layer → Except Error Layer}
    (hedit : ∀ l l', edit l = .ok l' → l'.counts = l.counts) :
    Stays (KeepsPace p) (editLayer (σ := σ) id edit) := by
  refine stays_editLayer fun d l l' hl hl' => keepsPace_withLayer fun l₁ hl₁ => ?_
  obtain rfl := Option.some.inj (hl.symm.trans hl₁)
  exact hedit l l' hl'

theorem keepsPace_onSession {α : Type} (x : SessionM σ α) : Stays (KeepsPace p) (onSession x) :=
  (talks_onSession x).mono fun _ _ => keepsPace_of_talks

theorem keepsPace_registerPlane [Kernel σ] (q : UInt32) : Stays (KeepsPace p) (registerPlane (σ := σ) q) := by
  refine fun d => (registerPlane_spec d q).mono ?_ fun _ _ h => keepsPace_of_talks h.talks
  rintro - _ ⟨-, _, _, d₁, -, -, ⟨trace, rfl⟩, rfl⟩
  exact keepsPace_of_eq rfl rfl rfl

end Steps

end Device

namespace Allocation

open Device

variable [Kernel σ] {p : UInt32}

theorem counts_of_bare {l l' : Layer} (h : l'.bare = l.bare) : l'.counts = l.counts :=
  (congrArg Layer.counts h :)

/-- An apply counts once, and nothing else that it does matters for the counts, however it ends. -/
theorem keepsPace_apply (o : OutputId) (flags : CommitFlags) (options : ApplyOptions) :
    Stays (Frame.Within (KeepsPace p)) (Frame.apply (σ := σ) o flags options) := by
  have hwithOutput : ∀ (d : Device σ) o f, KeepsPace p d (d.withOutput o f) :=
    fun _ _ _ => keepsPace_of_eq rfl rfl rfl
  -- Of all steps only this one touches the counts.
  have hcount : Stays (KeepsPace p) (updatePriorities (σ := σ)) :=
    stays_updatePriorities (fun _ => Paced.counted) fun _ _ _ => keepsPace_onSession _
  have hrefresh : Stays (KeepsPace p) (refreshFramebuffers (σ := σ) o) :=
    stays_refreshFramebuffers (fun _ _ _ => keepsPace_withLayer fun _ _ => rfl)
      (fun _ _ => keepsPace_onSession _) o
  have horder : Stays (KeepsPace p) (updateOrder (σ := σ) o) :=
    stays_updateOrder fun d _ _ _ _ => hwithOutput d o _
  have hmark : Stays (KeepsPace p) (markClean (σ := σ) o) :=
    stays_markClean (fun _ _ => keepsPace_withLayer fun _ _ => rfl) (fun d o _ => hwithOutput d o _) o
  exact stays_apply (fun _ _ _ _ => keepsPace_of_eq rfl rfl rfl)
    (fun _ _ _ hf => keepsPace_withLayer fun l hl => counts_of_bare (hf l hl))
    (fun _ _ _ => keepsPace_of_eq rfl rfl rfl) (fun _ => keepsPace_onSession _)
    (fun d o _ => hwithOutput d o _) (hcount.bind fun _ => hrefresh.bind fun _ => horder) hmark

end Allocation

namespace Device

variable [Kernel σ] {p : UInt32} {d : Device σ} {op : Operation σ}

/-- Making something is not counted. -/
theorem settings_of_makes (hmakes : op.Makes) :
    (d.after op).config = d.config ∧ (d.after op).applyCount = d.applyCount := by
  apply Ensures.leftBy (P := fun d' : Device σ => d'.config = d.config ∧ d'.applyCount = d.applyCount)
  -- A new output or layer touches neither settings nor counter.
  cases op with
  | createOutput crtc =>
    simp only [Operation.perform, createOutput, ensures_bind, ensures_get, ensures_pure]
    split
    · exact ⟨rfl, rfl⟩
    · exact ⟨rfl, rfl⟩
  | createLayer o =>
    simp only [Operation.perform, createLayer, ensures_bind, ensures_output, ensures_get, ensures_set,
      ensures_pure]
    exact ⟨fun _ _ => ⟨rfl, rfl⟩, fun _ => ⟨trivial, trivial⟩⟩
  | _ => exact hmakes.elim

/-- What is made has counted nothing yet. -/
theorem keepsPace_of_makes (hd : d.WellFormed) (hpermits : d.Permits op) (hmakes : op.Makes) :
    KeepsPace p d (d.after op) := by
  obtain ⟨hconfig, hcount⟩ := settings_of_makes (d := d) hmakes
  refine keepsPace_of_layers hconfig hcount fun id l' hl' => ?_
  rcases (gains_after hd hpermits hmakes).layers id l' hl' with hl | ⟨o, rfl⟩
  · exact .inl ⟨l', hl, rfl⟩
  · exact .inr rfl

/-- No operation leads out of the period, as long as it does not set another one. -/
theorem Paced.after (h : d.Paced p) (hd : d.WellFormed) (hpermits : d.Permits op)
    (hfixed : ∀ config, op = .configure config → config.priorityPeriod = p) : (d.after op).Paced p := by
  -- An operation that makes something starts it from zero counts.
  by_cases hmakes : op.Makes
  · exact keepsPace_of_makes hd hpermits hmakes h
  suffices hkeeps : Stays (KeepsPace p) op.perform from (hkeeps d).leftBy (P := KeepsPace p d) h
  -- Except for an apply, no operation touches a count; it may drop layers together with theirs.
  cases op with
  | configure config => exact stays_modify fun d h => ⟨hfixed config rfl, h.applies, h.layers⟩
  | drive f => exact stays_modify fun d => keepsPace_of_eq rfl rfl rfl
  | registerPlane q => exact keepsPace_registerPlane q
  | registerAllPlanes =>
    exact (stays_query _).bind fun ids => stays_forM fun q _ => keepsPace_registerPlane q
  | unregisterPlane q =>
    exact (stays_unregisterPlane keepsPace_unlink (fun _ _ => keepsPace_of_eq rfl rfl rfl) q).bind
      fun _ => stays_pure _
  | createOutput crtc => exact absurd trivial hmakes
  | destroyOutput o =>
    exact stays_destroyOutput (fun _ _ _ _ => keepsPace_of_eq rfl rfl rfl) keepsPace_unlink keepsPace_remove
      (fun _ _ => keepsPace_of_eq rfl rfl rfl) o
  | createLayer o => exact absurd trivial hmakes
  | destroyLayer id =>
    exact stays_destroyLayer (fun _ _ _ _ => keepsPace_of_eq rfl rfl rfl) keepsPace_unlink keepsPace_remove id
  | setProperty id name value => exact keepsPace_editLayer fun _ _ => Layer.counts_setProperty
  | unsetProperty id name =>
    exact keepsPace_editLayer (rel_of_ok (f := fun l : Layer => l.unsetProperty name) fun _ => rfl)
  | forceComposition id => exact keepsPace_editLayer (rel_of_ok Layer.counts_forceComposition)
  | setCompositionLayer o id =>
    exact stays_setCompositionLayer (fun _ _ _ _ => keepsPace_of_eq rfl rfl rfl) o id
  | apply o request flags options =>
    exact stays_perform_apply (Allocation.keepsPace_apply o flags options) request
  | commit request flags => exact (talks_commit request flags).mono fun _ _ => keepsPace_of_talks

theorem Run.paced {ops : List (Operation σ)} {d' : Device σ} (h : Run Permits d ops d') (hd : d.WellFormed)
    (hfixed : ∀ config, .configure config ∈ ops → config.priorityPeriod = p) (hpaced : d.Paced p) :
    d'.Paced p := by
  induction h with
  | nil => exact hpaced
  | cons hpermits _ ih =>
    refine ih (follows_after hd hpermits).wellFormed (fun config hmem => hfixed config (.tail _ hmem)) ?_
    exact hpaced.after hd hpermits fun config hop => hfixed config (hop ▸ .head _)

/-- Over any run with one priority period, the counts stay within the period. Between two promotions there are
fewer applies than the period has, no layer has more updates pending than there were applies, and none has more
promoted than the period has applies. So an apply that comes next adds one to counts that leave room for it in
32 bits. -/
theorem counts_within_period {kernel : σ} {config : Config} {crtcs : List UInt32} {ops : List (Operation σ)}
    {d : Device σ} (hperiod : 0 < config.priorityPeriod)
    (hfixed : ∀ c, .configure c ∈ ops → c.priorityPeriod = config.priorityPeriod)
    (h : Run Permits { session := { kernel }, config, crtcs } ops d) :
    d.applyCount < config.priorityPeriod.toNat ∧ d.applyCount + 1 < UInt32.size ∧
      ∀ id l, d.layer? id = some l →
        l.pendingPriority ≤ d.applyCount ∧ l.pendingPriority + 1 < UInt32.size ∧
          l.priority ≤ config.priorityPeriod.toNat := by
  have hfresh : Paced config.priorityPeriod ({ session := { kernel }, config, crtcs } : Device σ) :=
    ⟨rfl, hperiod, fun _ _ hl => by cases hl⟩
  have hpaced := h.paced (wellFormed_fresh kernel config crtcs) hfixed hfresh
  have hsize : config.priorityPeriod.toNat < UInt32.size := config.priorityPeriod.toNat_lt_size
  have happlies := hpaced.applies
  -- The period is a 32-bit number itself, and the counts are below it before an apply.
  refine ⟨happlies, by omega, fun id l hl => ?_⟩
  have hpending := (hpaced.layers id l hl).pending
  exact ⟨hpending, by omega, (hpaced.layers id l hl).priority⟩

/-- After a period in which one layer counted with every apply, the driver fails in the first apply of the
next one. -/
def failedThereafter : List (Operation Scripted) :=
  shownElsewhere ++ [.configure { priorityPeriod := 2, defaultTimeout := 5000 },
    .drive ({ · with results := [5] }), .apply .first {} {} {}]

/-- All counts are as great as they can be then. -/
theorem counts_within_shortPeriod :
    let d := shortPeriod.afterAll failedThereafter
    d.applyCount = 1 ∧ d.applyCount < 2 ∧ ∃ l, d.layer? ⟨⟨0, 0⟩⟩ = some l ∧ l.counts = (2, 1) ∧
      l.pendingPriority ≤ d.applyCount ∧ l.priority ≤ 2 := by
  intro d
  have hfixed : ∀ c, .configure c ∈ failedThereafter →
      c.priorityPeriod = shortPeriod.config.priorityPeriod := by
    intro c hc
    obtain rfl : c = { priorityPeriod := 2, defaultTimeout := 5000 } := by
      simpa [failedThereafter, shownElsewhere] using hc
    rfl
  have hrun : Run Permits shortPeriod failedThereafter d := run_afterAll (by decide +kernel)
  obtain ⟨happlies, -, hlayers⟩ := counts_within_period (by decide) hfixed hrun
  have hcounts : (d.layer? ⟨⟨0, 0⟩⟩).map Layer.counts = some (2, 1) := by decide +kernel
  obtain ⟨l, hl, hcounts⟩ := Option.map_eq_some_iff.mp hcounts
  obtain ⟨hpending, -, hpriority⟩ := hlayers _ l hl
  exact ⟨by decide +kernel, happlies, l, hl, hcounts, hpending, hpriority⟩

end Device

end Scanout
