import Scanout.Proofs.Allocation.Order
import Scanout.Proofs.Device.Run

/-! What the order of layers guarantees although their comparison is not transitive. Two layers never
come before each other, so a cycle has three layers at least, and they are overlays of each other: where
one layer is visible and the other is not, or one has a position and the other has none, the first comes
before the second whatever the others are. -/

namespace Scanout

namespace Layer

variable {l m : Layer}

/-- What decides between two layers before their positions are compared: whether it is visible, whether
it has a position, and among layers without one the priority. -/
def grade (l : Layer) : Bool ×ₗ Bool ×ₗ Nat :=
  toLex (l.isVisible, toLex (l.zpos?.isSome, if l.zpos? = none then l.priority else 0))

theorem precedes_of_grade_lt (h : m.grade < l.grade) : l.precedes m = true := by
  unfold grade at h
  simp only [Prod.Lex.toLex_lt_toLex, Bool.lt_iff] at h
  unfold precedes
  by_cases hvisible : l.isVisible = m.isVisible
  · rw [hvisible, if_neg (by simp)]
    cases hl : l.zpos? <;> cases hm : m.zpos? <;> simp_all
  · cases hl : l.isVisible <;> cases hm : m.isVisible <;> simp_all

/-- Layers with positions are compared by the same two numbers both ways. -/
theorem precedes_asymm (h : l.precedes m = true) : m.precedes l = false := by
  unfold precedes at h ⊢
  rw [m.intersects_comm l]
  -- Visibility, then position, then priority: each is asymmetric once those before it are equal.
  by_cases hvisible : l.isVisible = m.isVisible
  · rw [hvisible, if_neg (by simp)] at h ⊢
    cases hl : l.zpos? with
    | none =>
      cases hm : m.zpos? with
      | none =>
        simp only [hl, hm, decide_eq_true_eq, decide_eq_false_iff_not] at h ⊢
        omega
      | some b => simp [hl, hm] at h
    | some a =>
      cases hm : m.zpos? with
      | none => rfl
      | some b =>
        simp only [hl, hm] at h ⊢
        by_cases hintersects : l.intersects m = true
        · rw [if_pos hintersects] at h ⊢
          by_cases hab : a = b
          · rw [if_pos hab, decide_eq_true_eq] at h
            rw [if_pos hab.symm, decide_eq_false_iff_not]
            omega
          · rw [if_neg hab, decide_eq_true_eq] at h
            rw [if_neg (Ne.symm hab), decide_eq_false_iff_not]
            omega
        · rw [if_neg hintersects] at h ⊢
          by_cases hpriority : l.priority = m.priority
          · rw [if_pos hpriority, decide_eq_true_eq] at h
            rw [if_pos hpriority.symm, decide_eq_false_iff_not]
            omega
          · rw [if_neg hpriority, decide_eq_true_eq] at h
            rw [if_neg (Ne.symm hpriority), decide_eq_false_iff_not]
            omega
  -- Of two layers one of which is visible, only that one precedes.
  · cases hl : l.isVisible <;> cases hm : m.isVisible <;> simp_all

end Layer

namespace Allocation

variable {layers : Arena Layer} {composition : Option LayerId} {x y : LayerId}

theorem isHigherPriority_asymm (hne : x ≠ y) (h : isHigherPriority layers composition x y = true) :
    isHigherPriority layers composition y x = false := by
  unfold isHigherPriority at h ⊢
  by_cases hx : composition = some x
  · simp [hx, hne]
  · by_cases hy : composition = some y
    · simp [hy, Ne.symm hne] at h
    · rw [if_neg hx, if_neg hy] at h
      rw [if_neg hx, if_neg hy]
      split at h
      · rename_i l m hl hm
        rw [hl, hm]
        exact Layer.precedes_asymm h
      · cases h

/-- What decides between the layers of an output before positions are compared: the composition layer
comes first, the others go by their own grades. -/
def grade (layers : Arena Layer) (composition : Option LayerId) (id : LayerId) :
    Bool ×ₗ WithBot (Bool ×ₗ Bool ×ₗ Nat) :=
  toLex (decide (composition = some id), (layers.get? id.toHandle).map Layer.grade)

theorem isHigherPriority_of_grade_lt (hx : (layers.get? x.toHandle).isSome)
    (hy : (layers.get? y.toHandle).isSome)
    (h : grade layers composition y < grade layers composition x) :
    isHigherPriority layers composition x y = true := by
  obtain ⟨l, hl⟩ := Option.isSome_iff_exists.mp hx
  obtain ⟨m, hm⟩ := Option.isSome_iff_exists.mp hy
  simp only [grade, hl, hm, Prod.Lex.toLex_lt_toLex, Option.map_some, Bool.lt_iff] at h
  simp only [isHigherPriority, hl, hm]
  -- The composition layer has a grade of its own.
  by_cases hcx : composition = some x
  · rw [if_pos hcx]
  · by_cases hcy : composition = some y
    · have hne : y ≠ x := fun h => hcx (h ▸ hcy)
      simp [hcy, hne] at h
    · rw [if_neg hcx, if_neg hcy]
      simp only [hcx, hcy, decide_false, Bool.false_eq_true, and_false, true_and, false_or] at h
      exact Layer.precedes_of_grade_lt (WithBot.coe_lt_coe.mp h)

end Allocation

namespace Layer

/-- Nothing but positions can speak against this order of two layers: the first is visible if the
second is, and of two that are equally visible it has a position if the second has one, and no lower
priority if both have none. -/
structure InOrder (l m : Layer) : Prop where
  visible : m.isVisible = true → l.isVisible = true
  zpos : l.isVisible = m.isVisible → m.zpos?.isSome → l.zpos?.isSome
  priority : l.isVisible = m.isVisible → l.zpos? = none → m.zpos? = none → m.priority ≤ l.priority

/-- Grades in order put the layers in the order a reader of them would expect. -/
theorem InOrder.of_grade_le {l m : Layer} (h : m.grade ≤ l.grade) : l.InOrder m := by
  unfold grade at h
  simp only [Prod.Lex.toLex_le_toLex, Bool.lt_iff] at h
  refine ⟨fun hvisible => ?_, fun hsame hzpos => ?_, fun hsame hl hm => ?_⟩
  -- Visible, with a position, and of a higher position.
  · rcases h with h | h
    · exact h.2
    · exact h.1 ▸ hvisible
  · rcases h with h | ⟨-, h | h⟩
    · simp [hsame, h.1] at h
    · exact h.2
    · exact h.1 ▸ hzpos
  · simpa [hl, hm, hsame] using h

end Layer

namespace Allocation

open Device

variable {σ : Type} {d : Device σ} {o : OutputId} {out : Output}

theorem updateOrder_eq (hout : d.output? o = some out) :
    let arranged := arrange (isHigherPriority d.layers out.compositionLayer) out.layers
    updateOrder o d = .ok arranged.2 (d.withOutput o ({ · with layers := arranged.1 })) := by
  have houtput : Device.output o d = .ok out d := by
    rw [Device.output, get_bind, hout]
    rfl
  rw [updateOrder, get_bind, bind_of_ok houtput]
  rfl

/-- The layers of an output are put in an order in which the composition layer comes first. Of the
others the visible ones come before the invisible ones; among those that are equally visible the ones
with a position come before those without, and the latter go by priority. The answer is whether the
order is another one than before. Where the comparison is transitive on the layers, none of them comes
after one that it beats, and to do it again changes nothing. -/
theorem updateOrder_spec (hd : d.WellFormed) (hout : d.output? o = some out) :
    let beats := isHigherPriority d.layers out.compositionLayer
    ∃ changed layers, updateOrder o d = .ok changed (d.withOutput o ({ · with layers })) ∧
      layers.Perm out.layers ∧
      (changed = true ↔ layers ≠ out.layers) ∧
      (∀ c, out.compositionLayer = some c → layers.head? = some c) ∧
      layers.Pairwise (fun x y => out.compositionLayer ≠ some x →
        ∀ l m, d.layer? x = some l → d.layer? y = some m → l.InOrder m) ∧
      ((∀ x ∈ out.layers, ∀ y ∈ out.layers, ∀ z ∈ out.layers,
          beats x y = true → beats y z = true → beats x z = true) →
        layers.Pairwise (fun x y => beats y x = false) ∧
          updateOrder o (d.withOutput o ({ · with layers })) =
            .ok false (d.withOutput o ({ · with layers }))) := by
  intro beats
  -- Every layer of the output is listed once and is live.
  have hnodup : out.layers.Nodup := by
    have hmembers := hd.wiring.layers_nodup o out.layers out.compositionLayer
    exact Multiset.coe_nodup.mp (hmembers (by simp [wiring, hout, Output.members]))
  have halive : ∀ x ∈ out.layers, (d.layers.get? x.toHandle).isSome := by
    intro x hx
    obtain ⟨l, hl, -⟩ := layer_of_output hd hout hx
    exact Option.isSome_iff_exists.mpr ⟨l, hl⟩
  have hperm := arrange_perm beats out.layers
  have hasymm : ∀ x ∈ out.layers, ∀ y ∈ out.layers, x ≠ y → beats x y = true → beats y x = false :=
    fun _ _ _ _ => isHigherPriority_asymm
  -- The grades come out in order, whether or not the comparison is transitive.
  have hgrades : (arrange beats out.layers).1.Pairwise fun x y =>
      grade d.layers out.compositionLayer y ≤ grade d.layers out.compositionLayer x :=
    arrange_pairwise_key (s := {x | x ∈ out.layers}) hasymm
      (fun x hx y hy => isHigherPriority_of_grade_lt (halive x hx) (halive y hy)) hnodup fun _ => id
  refine ⟨_, _, updateOrder_eq hout, hperm, arrange_snd_iff hnodup, fun c hc => ?_, ?_,
    fun htrans => ?_⟩
  · -- No other layer has a grade as high as the composition layer.
    have hmem : c ∈ (arrange beats out.layers).1 := by
      have hmembers := hd.wiring.composition_mem o out.layers c
      exact hperm.symm.subset (hmembers (by simp [wiring, hout, Output.members, hc]))
    generalize (arrange beats out.layers).1 = layers at hmem hgrades
    cases layers with
    | nil => cases hmem
    | cons first rest =>
      rcases List.mem_cons.mp hmem with rfl | hrest
      · rfl
      · have hle := (List.pairwise_cons.mp hgrades).1 c hrest
        by_contra hne
        have hne : c ≠ first := fun h => hne (h ▸ rfl)
        simp [grade, hc, hne, Prod.Lex.toLex_le_toLex, Bool.lt_iff] at hle
  -- Of two ordinary layers only the second half of the grade counts.
  · refine hgrades.imp_of_mem fun {x y} hx hy hle hordinary l m hl hm => .of_grade_le ?_
    have hl : d.layers.get? x.toHandle = some l := hl
    have hm : d.layers.get? y.toHandle = some m := hm
    simp only [grade, hordinary, hl, hm, Prod.Lex.toLex_le_toLex, Option.map_some, Bool.lt_iff,
      decide_false, Bool.false_eq_true, and_false, false_or] at hle
    exact WithBot.coe_le_coe.mp hle.2
  · have hsettled : (arrange beats out.layers).1.Pairwise fun x y => beats y x = false :=
      arrange_pairwise (s := {x | x ∈ out.layers})
        (fun _ _ => winner_unbeaten (s := {x | x ∈ out.layers}) hasymm htrans) hnodup fun _ => id
    refine ⟨hsettled, ?_⟩
    -- The layers have not changed, so they are compared as before.
    have hunchanged := arrange_snd_eq_false.mpr hsettled
    have hsame : (arrange beats (arrange beats out.layers).1).1 = (arrange beats out.layers).1 := by
      by_contra hne
      have hchanged := (arrange_snd_iff (hperm.nodup_iff.mpr hnodup)).mpr hne
      rw [hunchanged] at hchanged
      cases hchanged
    have hout' : (d.withOutput o ({ · with layers := (arrange beats out.layers).1 })).output? o =
        some { out with layers := (arrange beats out.layers).1 } := by
      rw [output?_withOutput, if_pos rfl, hout, Option.map_some]
    refine (updateOrder_eq hout').trans ?_
    show EStateM.Result.ok (arrange beats _).2 (withOutput _ _ fun out =>
      { out with layers := (arrange beats (arrange beats _).1).1 }) = _
    rw [hunchanged, hsame, withOutput_withOutput]
    rfl

/-- Three layers of which the lowest is for composition, so that it moves to the front. -/
theorem updateOrder_composedLayers :
    let d := threeLayers.after (.setCompositionLayer .first ⟨⟨2, 0⟩⟩)
    ∃ layers : List LayerId,
      updateOrder .first d = .ok true (d.withOutput .first ({ · with layers })) ∧
        layers.head? = some ⟨⟨2, 0⟩⟩ ∧
        updateOrder .first (d.withOutput .first ({ · with layers })) =
          .ok false (d.withOutput .first ({ · with layers })) := by
  intro d
  have hpermits : threeLayers.Permits (.setCompositionLayer .first ⟨⟨2, 0⟩⟩) := trivial
  have hd : d.WellFormed := (reachable_threeLayers.after hpermits).wellFormed
  obtain ⟨out, hout⟩ : ∃ out, d.output? .first = some out :=
    Option.isSome_iff_exists.mp (by decide +kernel)
  have hcomposition : (d.output? .first).bind Output.compositionLayer = some ⟨⟨2, 0⟩⟩ := by
    decide +kernel
  have hlayers : (d.output? .first).map Output.layers = some [⟨⟨0, 0⟩⟩, ⟨⟨1, 0⟩⟩, ⟨⟨2, 0⟩⟩] := by
    decide +kernel
  rw [hout, Option.bind_some] at hcomposition
  rw [hout, Option.map_some, Option.some.injEq] at hlayers
  have htrans : ∀ x ∈ out.layers, ∀ y ∈ out.layers, ∀ z ∈ out.layers,
      isHigherPriority d.layers out.compositionLayer x y = true →
      isHigherPriority d.layers out.compositionLayer y z = true →
      isHigherPriority d.layers out.compositionLayer x z = true := by
    rw [hlayers, hcomposition]
    decide +kernel
  -- The order has changed, with the composition layer in front.
  obtain ⟨changed, layers, hrun, -, hchanged, hhead, -, hagain⟩ := updateOrder_spec hd hout
  have hfirst := hhead _ hcomposition
  have hmoved : changed = true := hchanged.mpr fun h => by
    rw [h, hlayers] at hfirst
    exact absurd hfirst (by decide)
  subst hmoved
  exact ⟨layers, hrun, hfirst, (hagain htrans).2⟩

end Allocation

end Scanout
