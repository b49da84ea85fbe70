import Scanout.Allocation.Search
import Scanout.Proofs.Plane.Writes

/-! The allocations a search may answer, said without the search: walks along the planes on which
every layer obeys the stacking rules, can be staged and passes. -/

namespace Scanout
namespace Search

variable {σ : Type}

/-- One plane is decided on after `path`, with `r` staged so far: it stays empty, or it takes a layer
that is allowed there and passes. -/
inductive Step (s : Scene) (passes : Request → Prop) (path : Path) (r : Request) (p : Plane) :
    Path → Request → Prop
  | leave : Step s passes path r p (⟨p, none⟩ :: path) r
  | place {id : LayerId} {l : Layer} {r' : Request}
      (free : p.isFreeFor s.output.crtcIndex = true)
      (mem : id ∈ s.output.layers)
      (layer : s.layer? id = some l)
      (visible : l.isVisible = true)
      (fresh : path.holds id = false)
      (rule : s.rejection? path p id l = none)
      (staged : p.stageLayer l s.output.crtc r = .ok () r')
      (fits : misfit? p l = none)
      (pass : passes r') :
      Step s passes path r p (⟨p, some id⟩ :: path) r'

/-- A list of planes is decided on, one after the other. -/
inductive Walk (s : Scene) (passes : Request → Prop) :
    Path → Request → List Plane → Path → Request → Prop
  | done {path r} : Walk s passes path r [] path r
  | step {path r p path₁ r₁ planes path₂ r₂} :
      Step s passes path r p path₁ r₁ → Walk s passes path₁ r₁ planes path₂ r₂ →
      Walk s passes path r (p :: planes) path₂ r₂

/-- A complete walk that uses composition exactly if some layer needs it. -/
structure Feasible (s : Scene) (passes : Request → Prop) (entry : Request) (planes : List Plane)
    (path : Path) : Prop where
  walk : ∃ r, Walk s passes [] entry planes path r
  valid : s.isValid path = true

theorem Walk.snoc {s : Scene} {passes : Request → Prop} {path path₁ path₂ : Path}
    {r r₁ r₂ : Request} {planes : List Plane} {p : Plane} (hw : Walk s passes path r planes path₁ r₁)
    (hs : Step s passes path₁ r₁ p path₂ r₂) : Walk s passes path r (planes ++ [p]) path₂ r₂ := by
  induction hw with
  | done => exact .step hs .done
  | step h _ ih => exact .step h (ih hs)

theorem Step.mono {s : Scene} {passes passes' : Request → Prop} (h : ∀ r, passes r → passes' r)
    {path path' : Path} {r r' : Request} {p : Plane} (hs : Step s passes path r p path' r') :
    Step s passes' path r p path' r' := by
  cases hs with
  | leave => exact .leave
  | place free mem layer visible fresh rule staged fits pass =>
    exact .place free mem layer visible fresh rule staged fits (h _ pass)

theorem Walk.mono {s : Scene} {passes passes' : Request → Prop} (h : ∀ r, passes r → passes' r)
    {path path' : Path} {r r' : Request} {planes : List Plane}
    (hw : Walk s passes path r planes path' r') : Walk s passes' path r planes path' r' := by
  induction hw with
  | done => exact .done
  | step hs _ ih => exact .step (hs.mono h) ih

theorem Feasible.mono {s : Scene} {passes passes' : Request → Prop} (h : ∀ r, passes r → passes' r)
    {entry : Request} {planes : List Plane} {path : Path}
    (hf : Feasible s passes entry planes path) : Feasible s passes' entry planes path := by
  obtain ⟨⟨r, hw⟩, hvalid⟩ := hf
  exact ⟨⟨r, hw.mono h⟩, hvalid⟩

structure Placed (s : Scene) (earlier : Path) (p : Plane) (id : LayerId) (l : Layer) : Prop where
  free : p.isFreeFor s.output.crtcIndex = true
  mem : id ∈ s.output.layers
  layer : s.layer? id = some l
  visible : l.isVisible = true
  fresh : earlier.holds id = false
  rule : s.rejection? earlier p id l = none
  fits : misfit? p l = none

/-- Each layer on the path was allowed on its plane when it was put there. -/
def Legal (s : Scene) (path : Path) : Prop :=
  ∀ later c earlier id, path = later ++ c :: earlier → c.layer = some id →
    ∃ l, Placed s earlier c.plane id l

theorem legal_nil (s : Scene) : Legal s [] := by
  intro later c earlier id he
  cases later <;> cases he

theorem Legal.exists_placed {s : Scene} {path : Path} (h : Legal s path) {c : Choice} (hc : c ∈ path)
    {id : LayerId} (hid : c.layer = some id) :
    ∃ earlier l, c :: earlier <:+ path ∧ Placed s earlier c.plane id l := by
  obtain ⟨later, earlier, hpath⟩ := List.append_of_mem hc
  obtain ⟨l, hplaced⟩ := h later c earlier id hpath hid
  exact ⟨earlier, l, ⟨later, hpath.symm⟩, hplaced⟩

theorem isOpen_eq_true_iff {path : Path} {id : LayerId} {l : Layer} : path.isOpen id l = true ↔
    l.plane = none ∧ l.isVisible = true ∧ path.holds id = false := by
  simp [Path.isOpen, and_assoc]

section Facts

variable {s : Scene} {passes : Request → Prop} {path path' : Path} {r r' : Request}

/-- A step that puts a layer on the plane says that it may stand there, can be staged and passes. -/
theorem Step.placed {p : Plane} {id : LayerId} {l : Layer}
    (hs : Step s passes path r p (⟨p, some id⟩ :: path) r') (layer : s.layer? id = some l) :
    Placed s path p id l ∧ p.stageLayer l s.output.crtc r = .ok () r' ∧ passes r' := by
  cases hs with
  | place free mem layer' visible fresh rule staged fits pass =>
    obtain rfl := Option.some.inj (layer.symm.trans layer')
    exact ⟨⟨free, mem, layer, visible, fresh, rule, fits⟩, staged, pass⟩

theorem Placed.step {p : Plane} {id : LayerId} {l : Layer} (h : Placed s path p id l)
    (staged : p.stageLayer l s.output.crtc r = .ok () r') (pass : passes r') :
    Step s passes path r p (⟨p, some id⟩ :: path) r' :=
  .place h.free h.mem h.layer h.visible h.fresh h.rule staged h.fits pass

/-- A layer that is still open may stand where the rules and the plane allow it. -/
theorem placed_of_isOpen {p : Plane} {id : LayerId} {l : Layer}
    (free : p.isFreeFor s.output.crtcIndex = true) (mem : id ∈ s.output.layers)
    (layer : s.layer? id = some l) (opens : path.isOpen id l = true)
    (rule : s.rejection? path p id l = none) (fits : misfit? p l = none) : Placed s path p id l := by
  obtain ⟨-, hvisible, hfresh⟩ := isOpen_eq_true_iff.mp opens
  exact ⟨free, mem, layer, hvisible, hfresh, rule, fits⟩

theorem Step.legal {p : Plane} (hs : Step s passes path r p path' r') (h : Legal s path) :
    Legal s path' := by
  intro later c earlier id hpath hid
  cases hs with
  | leave =>
    -- The choice asked about is the new one, or it was on the path before.
    rcases List.append_eq_cons_iff.mp hpath.symm with ⟨rfl, he⟩ | ⟨later', rfl, he⟩
    · obtain ⟨rfl, rfl⟩ := List.cons.inj he
      cases hid
    · exact h later' c earlier id he hid
  | place free mem layer visible fresh rule _ fits =>
    -- The new choice was allowed when it was made.
    rcases List.append_eq_cons_iff.mp hpath.symm with ⟨rfl, he⟩ | ⟨later', rfl, he⟩
    · obtain ⟨rfl, rfl⟩ := List.cons.inj he
      obtain rfl := Option.some.inj hid
      exact ⟨_, free, mem, layer, visible, fresh, rule, fits⟩
    · exact h later' c earlier id he hid

theorem Step.visits {p : Plane} (hs : Step s passes path r p path' r') :
    path'.map Choice.plane = p :: path.map Choice.plane := by
  cases hs <;> rfl

theorem Walk.legal {planes : List Plane} (hw : Walk s passes path r planes path' r')
    (h : Legal s path) : Legal s path' := by
  induction hw with
  | done => exact h
  | step hs _ ih => exact ih (hs.legal h)

/-- A walk puts layers only on planes that take them. -/
theorem Walk.takes {planes : List Plane} (hw : Walk s passes path r planes path' r') {c : Choice}
    (hc : c ∈ path') {id : LayerId} (hid : c.layer = some id) :
    c ∈ path ∨ ∃ l, s.layer? id = some l ∧ c.plane.Takes l := by
  -- Induction on the walk: a choice at its end was there, or one of the steps made it.
  induction hw with
  | done => exact .inl hc
  | step hs _ ih =>
    rcases ih hc with hmem | htaken
    · cases hs with
      | leave =>
        rcases List.mem_cons.mp hmem with rfl | hmem
        · cases hid
        · exact .inl hmem
      | place free mem layer visible fresh rule staged fits pass =>
        rcases List.mem_cons.mp hmem with rfl | hmem
        · obtain rfl := Option.some.inj hid
          exact .inr ⟨_, layer, (Plane.adds_stageLayer _ _ _ _ _ staged).2⟩
        · exact .inl hmem
    · exact .inr htaken

theorem Walk.visits {planes : List Plane} (hw : Walk s passes path r planes path' r') :
    path'.map Choice.plane = planes.reverse ++ path.map Choice.plane := by
  induction hw with
  | done => rfl
  | step hs _ ih => rw [ih, hs.visits, List.reverse_cons, List.append_assoc, List.singleton_append]

end Facts

section Complete

variable {s : Scene} {passes : Request → Prop} {entry : Request} {planes : List Plane} {path : Path}
  (h : Feasible s passes entry planes path)
include h

/-- A complete walk visits all planes in their order. -/
theorem Feasible.visits : path.reverse.map Choice.plane = planes := by
  obtain ⟨r, hw⟩ := h.walk
  rw [List.map_reverse, hw.visits, List.map_nil, List.append_nil, List.reverse_reverse]

theorem Feasible.legal : Legal s path := by
  obtain ⟨r, hw⟩ := h.walk
  exact hw.legal (legal_nil s)

theorem Feasible.takes {c : Choice} (hc : c ∈ path) {id : LayerId} (hid : c.layer = some id) :
    ∃ l, s.layer? id = some l ∧ c.plane.Takes l := by
  obtain ⟨r, hw⟩ := h.walk
  exact (hw.takes hc hid).resolve_left fun hmem => by cases hmem

end Complete

def Choice.writes (s : Scene) (c : Choice) : List Write :=
  match s.chosen? c with
  | some l => c.plane.layerWrites l s.output.crtc
  | none => []

theorem Choice.object_writes (s : Scene) (c : Choice) : ∀ w ∈ c.writes s, w.object = c.plane.id := by
  intro w hw
  unfold writes at hw
  split at hw
  · exact c.plane.object_layerWrites _ _ w hw
  · cases hw

section Writes

variable {s : Scene} {passes : Request → Prop} {path path' : Path} {r r' : Request}

theorem Step.writes {p : Plane} (hs : Step s passes path r p path' r') :
    ∃ c, path' = c :: path ∧ r' = r.append (c.writes s) := by
  cases hs with
  | leave => exact ⟨⟨p, none⟩, rfl, by simp [Choice.writes, Scene.chosen?, Request.append]⟩
  | @place id l _ free mem layer visible fresh rule staged fits pass =>
    refine ⟨⟨p, some id⟩, rfl, ?_⟩
    have hchosen : s.chosen? ⟨p, some id⟩ = some l := layer
    simp only [Choice.writes, hchosen]
    exact (p.adds_stageLayer l s.output.crtc r r' staged).1

/-- The writes of a walk are those of its choices, in the order of visits. -/
theorem Walk.writes {planes : List Plane} {entry : Request}
    (hw : Walk s passes path r planes path' r')
    (hr : r = entry.append (path.reverse.flatMap (Choice.writes s))) :
    r' = entry.append (path'.reverse.flatMap (Choice.writes s)) := by
  -- Induction on the walk: each step adds the writes of its choice.
  induction hw with
  | done => exact hr
  | step hs _ ih =>
    obtain ⟨c, rfl, rfl⟩ := hs.writes
    apply ih
    rw [hr, List.reverse_cons, List.flatMap_append, List.flatMap_cons, List.flatMap_nil,
      List.append_nil]
    simp only [Request.append, List.append_assoc]

/-- A walk that puts a layer somewhere ends with a request that passed. -/
theorem Walk.passed {planes : List Plane} (hw : Walk s passes path r planes path' r') :
    passes r' ∨ r' = r ∧ ∀ c ∈ path', c ∈ path ∨ c.layer = none := by
  -- Induction on the walk from its first step, so a later placement has been passed in any case.
  induction hw with
  | done => exact .inr ⟨rfl, fun c hc => .inl hc⟩
  | step hs _ ih =>
    rcases ih with hpass | ⟨rfl, hempty⟩
    · exact .inl hpass
    · cases hs with
      | leave =>
        refine .inr ⟨rfl, fun c hc => ?_⟩
        rcases hempty c hc with hmem | hnone
        · rcases List.mem_cons.mp hmem with rfl | hmem
          · exact .inr rfl
          · exact .inl hmem
        · exact .inr hnone
      | place free mem layer visible fresh rule staged fits pass => exact .inl pass

end Writes

def ways (s : Scene) (passes : Request → Prop) (path : Path) (r : Request) (planes : List Plane) :
    Set Path := {path' | ∃ r', Walk s passes path r planes path' r'}

def waysThrough (s : Scene) (passes : Request → Prop) (path : Path) (r : Request) (p : Plane)
    (planes : List Plane) (id : LayerId) : Set Path :=
  {path' | ∃ r', Step s passes path r p (⟨p, some id⟩ :: path) r' ∧
    path' ∈ ways s passes (⟨p, some id⟩ :: path) r' planes}

/-- A walk that puts a layer on `p` was allowed to, has staged it on top of `r`, and the outcome
passed. -/
theorem mem_waysThrough {s : Scene} {passes : Request → Prop} {path path' : Path} {r : Request}
    {p : Plane} {planes : List Plane} {id : LayerId} {l : Layer} (layer : s.layer? id = some l)
    (h : path' ∈ waysThrough s passes path r p planes id) :
    Placed s path p id l ∧ ∃ r', p.stageLayer l s.output.crtc r = .ok () r' ∧ passes r' ∧
      path' ∈ ways s passes (⟨p, some id⟩ :: path) r' planes := by
  obtain ⟨r', hstep, hpath'⟩ := h
  obtain ⟨hplaced, staged, pass⟩ := hstep.placed layer
  exact ⟨hplaced, r', staged, pass, hpath'⟩

/-- A walk leaves the first plane empty or goes through one of the layers. -/
theorem mem_ways_cons {s : Scene} {passes : Request → Prop} {path path' : Path} {r : Request}
    {p : Plane} {planes : List Plane} (h : path' ∈ ways s passes path r (p :: planes)) :
    path' ∈ ways s passes (⟨p, none⟩ :: path) r planes ∨
      p.isFreeFor s.output.crtcIndex = true ∧
        ∃ id ∈ s.output.layers, path' ∈ waysThrough s passes path r p planes id := by
  obtain ⟨r', hw⟩ := h
  cases hw with
  | step hs hw =>
    cases hs with
    | leave => exact .inl ⟨r', hw⟩
    | place free mem layer visible fresh rule staged fits pass =>
      exact .inr ⟨free, _, mem, _, .place free mem layer visible fresh rule staged fits pass, r', hw⟩

theorem score_step {s : Scene} {passes : Request → Prop} {path path' : Path} {r r' : Request}
    {p : Plane} (h : Step s passes path r p path' r') :
    s.score path' ≤ s.score path + if p.isFreeFor s.output.crtcIndex then 1 else 0 := by
  cases h with
  | leave => simp [Scene.score]
  | place free =>
    simp only [Scene.score, List.countP_cons, free, ↓reduceIte]
    split <;> omega

/-- Every free plane adds one to the score at most. -/
theorem score_walk {s : Scene} {passes : Request → Prop} {path path' : Path} {r r' : Request}
    {planes : List Plane} (h : Walk s passes path r planes path' r') :
    s.score path' ≤
      s.score path + planes.countP fun p => p.isFreeFor s.output.crtcIndex := by
  -- Each step adds at most one to the score, and only on a free plane.
  induction h with
  | done => omega
  | step hs _ ih =>
    have := score_step hs
    rw [List.countP_cons]
    omega

def Reaches (best : Option Best) (n : Nat) : Prop := ∃ b, best = some b ∧ n ≤ b.score

theorem Reaches.mono {best : Option Best} {m n : Nat} (h : Reaches best n) (hle : m ≤ n) :
    Reaches best m := by
  obtain ⟨b, hb, hn⟩ := h
  exact ⟨b, hb, Nat.le_trans hle hn⟩

theorem any_iff_reaches {best : Option Best} {n : Nat} :
    (best.any fun b => n ≤ b.score) = true ↔ Reaches best n := by
  simp [Reaches, Option.any_eq_true]

theorem isHopeless_iff {s : Scene} {best : Option Best} {path : Path} {left : Nat} :
    isHopeless s best path left = true ↔ Reaches best (s.score path + left) := any_iff_reaches

/-- The best allocation is no worse than before and, if the driver is steady, no worse than any of
the paths. -/
structure Improves (s : Scene) (steady : Prop) (paths : Set Path) (best best' : Option Best) :
    Prop where
  grows : ∀ n, Reaches best n → Reaches best' n
  covers : steady → ∀ path ∈ paths, s.isValid path = true → Reaches best' (s.score path)

namespace Improves

variable {s : Scene} {steady : Prop} {paths paths' : Set Path} {best best₁ best₂ : Option Best}

/-- Where no path leads, nothing has to be done. -/
theorem of_empty (h : steady → ∀ path, path ∉ paths) : Improves s steady paths best best :=
  ⟨fun _ h => h, fun hsteady path hpath => absurd hpath (h hsteady path)⟩

theorem append {all : Set Path} (h : Improves s steady paths best best₁)
    (h' : Improves s steady paths' best₁ best₂) (hall : ∀ path ∈ all, path ∈ paths ∨ path ∈ paths') :
    Improves s steady all best best₂ where
  grows n hn := h'.grows n (h.grows n hn)
  covers := by
    intro hsteady path hpath hvalid
    rcases hall path hpath with hpath | hpath
    · exact h'.grows _ (h.covers hsteady path hpath hvalid)
    · exact h'.covers hsteady path hpath hvalid

theorem mono (h : Improves s steady paths best best₁) (hsub : ∀ path ∈ paths', path ∈ paths) :
    Improves s steady paths' best best₁ :=
  ⟨h.grows, fun hsteady path hpath => h.covers hsteady path (hsub path hpath)⟩

/-- A branch that is not entered has nothing better to offer. -/
theorem of_isHopeless {passes : Request → Prop} {path : Path} {r : Request} {planes : List Plane}
    (h : isHopeless s best path (planes.countP fun p => p.isFreeFor s.output.crtcIndex) = true) :
    Improves s steady (ways s passes path r planes) best best where
  grows _ h := h
  covers := by
    rintro - path' ⟨r', hw⟩ -
    exact (isHopeless_iff.mp h).mono (score_walk hw)

end Improves

end Search
end Scanout
