import Scanout.Proofs.Allocation.Stacking
import Scanout.Proofs.Search.Expiry

/-! A search fills overlays from the top. Wherever it has got to, what intersects a layer on an overlay from
above is on its path too. So the rule against a layer that belongs above one that is placed has nothing to
reject: another rule, asked earlier on the path, has seen to that. -/

namespace Scanout

def Layer.IsUnder (l other : Layer) : Prop :=
  ∃ z z', l.zpos? = some z ∧ other.zpos? = some z' ∧ z < z' ∧ l.intersects other = true

namespace Search

variable {σ : Type}

def TopFirst (s : Scene) (path : Path) : Prop :=
  ∀ c ∈ path, c.plane.isPrimary = false → ∀ lower, s.chosen? c = some lower →
    ∀ id ∈ s.output.layers, path.holds id = false →
      ∀ upper, s.layer? id = some upper → upper.isVisible = true → ¬ lower.IsUnder upper

/-- Whatever the plane, no layer that is still to be placed is rejected for belonging above one that is
placed. -/
def NeverAbove (s : Scene) (path : Path) : Prop :=
  ∀ p, ∀ id ∈ s.output.layers, ∀ l, s.layer? id = some l → path.isOpen id l = true →
    s.rejection? path p id l ≠ some .layerZposAbove

section Rules

variable {s : Scene} {path : Path}

/-- When the lower layer was put on its overlay, the upper one had no plane, and the rule against that
was asked. -/
theorem Legal.topFirst (h : Legal s path) : TopFirst s path := by
  intro c hc hoverlay lower hlower id mem fresh upper hupper _ hunder
  -- The layer below was placed by the rules, when the path was shorter.
  obtain ⟨id₀, hid₀, hlayer⟩ := Option.bind_eq_some_iff.mp hlower
  obtain ⟨earlier, l, hsuffix, hplaced⟩ := h.exists_placed hc hid₀
  obtain rfl := Option.some.inj (hplaced.layer.symm.trans hlayer)
  -- What the path does not hold it did not hold earlier.
  have hfresh : Path.holds earlier id = false := by
    by_contra hheld
    have hearlier : earlier <:+ path := (List.suffix_cons c earlier).trans hsuffix
    rw [holds_of_suffix hearlier (eq_true_of_ne_false hheld)] at fresh
    cases fresh
  -- The layer above is not placed by then, so the rule about composited layers would have refused.
  obtain ⟨z, z', hz, hz', hlt, hint⟩ := hunder
  have hnone := (of_rejection?_eq_none hplaced.rule hoverlay).1
  rw [hasCompositedLayerOver_of_intersects mem hfresh hupper hz hz' hlt hint] at hnone
  cases hnone

/-- The rule looks for a layer on an overlay that is under the one to be placed. -/
theorem exists_isUnder_of_isAbovePlaced {l : Layer} {z : Int} (hz : l.zpos? = some z)
    (h : s.isAbovePlaced path l z = true) :
    ∃ c ∈ path, c.plane.isPrimary = false ∧ ∃ lower, s.chosen? c = some lower ∧ lower.IsUnder l := by
  obtain ⟨-, hany⟩ := Bool.and_eq_true_iff.mp h
  obtain ⟨⟨p, lower⟩, hplaced, hbelow⟩ := List.any_eq_true.mp hany
  -- The layers compared are those on overlays.
  obtain ⟨hless, hint⟩ := Bool.and_eq_true_iff.mp hbelow
  obtain ⟨z', hz', hlt⟩ := (Option.any_eq_true _ _).mp hless
  obtain ⟨c, hc, hchosen⟩ := List.mem_filterMap.mp hplaced
  obtain ⟨_, hlower, heq⟩ := Option.map_eq_some_iff.mp hchosen
  cases heq
  obtain ⟨hmem, hoverlay⟩ := List.mem_filter.mp hc
  rw [Layer.intersects_comm] at hint
  exact ⟨c, hmem, by simpa using hoverlay, lower, hlower, z', z, hz', hz, of_decide_eq_true hlt, hint⟩

theorem isAbovePlaced_of_rejection? {p : Plane} {id : LayerId} {l : Layer}
    (h : s.rejection? path p id l = some .layerZposAbove) :
    ∃ z, l.zpos? = some z ∧ s.isAbovePlaced path l z = true := by
  unfold Scene.rejection? at h
  -- Only the first of the rules about positions answers this.
  rcases Option.or_eq_some_iff.mp h with hstacking | ⟨-, hrest⟩
  · obtain ⟨z, hz, hrule⟩ := Option.bind_eq_some_iff.mp hstacking
    refine ⟨z, hz, ?_⟩
    by_contra hnot
    rw [if_neg hnot] at hrule
    split at hrule
    · cases hrule
    · split at hrule <;> cases hrule
  · split at hrest
    · cases hrest
    · split at hrest <;> cases hrest

theorem TopFirst.neverAbove (h : TopFirst s path) : NeverAbove s path := by
  intro p id mem l layer opens hrejected
  obtain ⟨-, hvisible, hfresh⟩ := isOpen_eq_true_iff.mp opens
  obtain ⟨z, hz, habove⟩ := isAbovePlaced_of_rejection? hrejected
  obtain ⟨c, hc, hoverlay, lower, hlower, hunder⟩ := exists_isUnder_of_isAbovePlaced hz habove
  exact h c hc hoverlay lower hlower id mem hfresh l layer hvisible hunder

end Rules

section Watched

variable [Kernel σ] {s : Scene} {path : Path} {p : Plane} {cursor : Nat}
  {descend descend' : LayerId → SearchM σ Unit}

/-- The search with an alarm, which goes off at each node whose path is not `ok`. If what the alarm does
makes no difference, the search visits no such node. -/
def watched (s : Scene) (ok : Path → Prop) [DecidablePred ok] (alarm : SearchM σ Unit) :
    List Plane → Path → SearchM σ Unit
  | [], path => if ok path then finish s path else alarm
  | p :: planes, path =>
    if ok path then do
      let left := (p :: planes).countP fun q => q.isFreeFor s.output.crtcIndex
      if isHopeless s (← get).best path left then pure ()
      else
        let cursor := (← get).request.cursor
        if p.isFreeFor s.output.crtcIndex then
          tryLayers s path p cursor (fun id => watched s ok alarm planes (⟨p, some id⟩ :: path))
            s.output.layers
        watched s ok alarm planes (⟨p, none⟩ :: path)
        rollback cursor
    else alarm

/-- A try goes deeper only with a layer that fits the plane. -/
theorem tryStaged_congr {id : LayerId} {l : Layer}
    (h : misfit? p l = none → descend id = descend' id) :
    tryStaged s path p cursor descend id l = tryStaged s path p cursor descend' id l := by
  refine bind_congr fun failed => ?_
  -- Up to the misfit the two run alike.
  cases failed with
  | some why => rfl
  | none =>
    refine bind_congr fun _ => ?_
    cases fits : misfit? p l with
    | some why => rfl
    | none => rw [h fits]

theorem tryLayer_congr (free : p.isFreeFor s.output.crtcIndex = true) {id : LayerId}
    (mem : id ∈ s.output.layers) (h : ∀ l, Placed s path p id l → descend id = descend' id) :
    tryLayer s path p cursor descend id = tryLayer s path p cursor descend' id := by
  unfold tryLayer
  cases layer : s.layer? id with
  | none => rfl
  | some l =>
    dsimp only
    -- The descent is reached only for a layer that is placed.
    cases opens : path.isOpen id l with
    | false => rfl
    | true =>
      cases rule : s.rejection? path p id l with
      | some rejection => rfl
      | none =>
        have hstaged : tryStaged s path p cursor descend id l =
            tryStaged s path p cursor descend' id l :=
          tryStaged_congr fun fits => h l (placed_of_isOpen free mem layer opens rule fits)
        rw [hstaged]

/-- It is enough to go deeper alike from where the rules and the plane let a layer stand. -/
theorem tryLayers_congr (free : p.isFreeFor s.output.crtcIndex = true) {ids : List LayerId}
    (mem : ids ⊆ s.output.layers)
    (h : ∀ id l, Placed s path p id l → descend id = descend' id) :
    tryLayers s path p cursor descend ids = tryLayers s path p cursor descend' ids := by
  induction ids with
  | nil => rfl
  | cons id ids ih =>
    obtain ⟨hmem, hrest⟩ := List.cons_subset.mp mem
    rw [tryLayers, tryLayers, tryLayer_congr free hmem (h id), ih hrest]

/-- The alarm never goes off if all is well with paths whose layers were allowed. -/
theorem Legal.watched_eq_choose {ok : Path → Prop} [DecidablePred ok] (alarm : SearchM σ Unit)
    (hok : ∀ path, Legal s path → ok path) (planes : List Plane) (h : Legal s path) :
    watched s ok alarm planes path = choose s planes path := by
  -- The paths below are legal again: a search goes deeper only with what was allowed, or with nothing.
  induction planes generalizing path with
  | nil => exact if_pos (hok path h)
  | cons p planes ih =>
    have hempty := ih (h.empty p)
    -- Each layer tried is one that may be placed here.
    have hbelow : p.isFreeFor s.output.crtcIndex = true → ∀ cursor,
        tryLayers s path p cursor (fun id => watched s ok alarm planes (⟨p, some id⟩ :: path))
          s.output.layers =
        tryLayers s path p cursor (fun id => choose s planes (⟨p, some id⟩ :: path))
          s.output.layers := by
      intro free cursor
      refine tryLayers_congr free (List.Subset.refl _) fun id l hplaced => ih (h.cons ?_)
      rintro _ ⟨⟩
      exact ⟨l, hplaced⟩
    rw [watched, if_pos (hok path h), choose]
    -- Layers are tried only on a plane that is free.
    cases free : p.isFreeFor s.output.crtcIndex with
    | true => simp only [hempty, hbelow free]
    | false => simp only [hempty, Bool.false_eq_true, ↓reduceIte]

end Watched

/-- At every node that a search visits, whatever the layers, the driver and the time, no layer on an overlay
is under a visible one that has no plane yet, and none is rejected for belonging above one that is placed. A
search with an alarm at all other nodes is the search itself, however it ends. -/
theorem layerZposAbove_unreachable [Kernel σ] (s : Scene) (planes : List Plane)
    [DecidablePred fun path => TopFirst s path ∧ NeverAbove s path] (alarm : SearchM σ Unit) :
    watched s (fun path => TopFirst s path ∧ NeverAbove s path) alarm planes [] = choose s planes [] := by
  refine Legal.watched_eq_choose alarm (fun path h => ?_) planes (legal_nil s)
  exact ⟨h.topFirst, h.topFirst.neverAbove⟩

end Search
end Scanout
