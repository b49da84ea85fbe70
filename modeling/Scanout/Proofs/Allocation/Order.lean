import Mathlib.Data.Int.ConditionallyCompleteOrder
import Mathlib.Data.Prod.Lex
import Mathlib.Order.ConditionallyCompleteLattice.Basic
import Mathlib.Order.WithBot
import Scanout.Proofs.Allocation.Quiet

/-! When a list that was put in order stays in order. The comparison of layers need not be transitive,
so the order may change each time it is made. Where stacking and update frequency do not contradict each
other, layers are compared by rank, and the order is made once and for all. -/

namespace Scanout

namespace Allocation

section Arrange

variable {α κ : Type} [LinearOrder κ] {beats : α → α → Bool} {key : α → κ} {x : α} {xs : List α}

omit [LinearOrder κ] in
/-- Nobody takes the first place from an element that none of the others beats. -/
theorem winner_snd_eq_none : (winner beats x xs).2 = none ↔ ∀ y ∈ xs, beats y x = false := by
  unfold winner
  generalize 0 = n
  induction xs generalizing n with
  | nil => simp
  | cons y xs ih =>
    rw [List.zipIdx_cons, List.foldl_cons, List.forall_mem_cons, ← ih (n + 1)]
    cases hy : beats y x with
    -- The first challenger leaves the matter open, or takes the place.
    | false => simp
    | true =>
      -- Once a place is taken, some place stays taken.
      have htaken : ∀ cs : List (α × Nat), (cs.foldl
          (fun best challenger =>
            if beats challenger.1 best.1 then (challenger.1, some challenger.2) else best)
          (y, some n)).2.isSome = true := fun cs =>
        List.foldlRecOn (motive := fun b : α × Option Nat => b.2.isSome = true) cs _ rfl
          fun best hbest challenger _ => by split <;> simp [hbest]
      have hsome := htaken (xs.zipIdx (n + 1))
      rw [Option.isSome_iff_ne_none] at hsome
      simpa using hsome

omit [LinearOrder κ] in
theorem winner_fst (x : α) (xs : List α) : (winner beats x xs).1 =
    xs.foldl (fun best y => if beats y best then y else best) x := by
  -- The place is of no account for who wins, so both are generalized.
  unfold winner
  generalize 0 = n
  generalize (none : Option Nat) = place
  induction xs generalizing x n place with
  | nil => rfl
  | cons y xs ih =>
    rw [List.zipIdx_cons, List.foldl_cons, List.foldl_cons]
    split
    · exact ih y (n + 1) (some n)
    · exact ih x (n + 1) place

omit [LinearOrder κ] in
theorem winner_fst_eq_self (h : (winner beats x xs).2 = none) : (winner beats x xs).1 = x := by
  have hloses := winner_snd_eq_none.mp h
  rw [winner_fst]
  clear h
  induction xs with
  | nil => rfl
  | cons y xs ih =>
    rw [List.forall_mem_cons] at hloses
    rw [List.foldl_cons, hloses.1]
    exact ih hloses.2

/-- An order that changes nothing is one in which no element is beaten by a later one. -/
theorem arrange_snd_eq_false :
    (arrange beats xs).2 = false ↔ xs.Pairwise fun x y => beats y x = false := by
  -- Along the recursion: the first one stays, or changes places with the winner.
  induction xs using arrange.induct beats with
  | case1 => simp [arrange]
  | case2 x xs best hwinner arranged changed harranged ih =>
    have hfirst : ∀ y ∈ xs, beats y x = false := winner_snd_eq_none.mp (by rw [hwinner])
    rw [arrange, hwinner, List.pairwise_cons, and_iff_right hfirst]
    exact ih
  | case3 x xs best i hwinner ih =>
    rw [arrange, hwinner, List.pairwise_cons]
    -- The first one is beaten, so something has changed.
    refine iff_of_false (by simp) fun h => ?_
    have hnone := winner_snd_eq_none.mpr h.1
    rw [hwinner] at hnone
    cases hnone

omit [LinearOrder κ] in
/-- The answer is whether the list has changed: what moves to the front is another element. -/
theorem arrange_snd_iff (hnodup : xs.Nodup) :
    (arrange beats xs).2 = true ↔ (arrange beats xs).1 ≠ xs := by
  induction xs using arrange.induct beats with
  | case1 => simp [arrange]
  | case2 x xs best hwinner arranged changed harranged ih =>
    rw [arrange, hwinner]
    simpa using ih (List.nodup_cons.mp hnodup).2
  | case3 x xs best i hwinner ih =>
    have hmem : best ∈ xs := List.mem_of_getElem? (getElem?_of_winner hwinner)
    rw [arrange, hwinner]
    refine iff_of_true rfl fun h => (List.nodup_cons.mp hnodup).1 ?_
    rwa [(List.cons.inj h).1] at hmem

omit [LinearOrder κ] in
/-- Where the winner of some elements precedes all others of them, the list is put in this order. -/
theorem arrange_pairwise {s : Set α} {R : α → α → Prop}
    (hprecedes : ∀ x xs, (∀ y ∈ x :: xs, y ∈ s) → ∀ y ∈ x :: xs, y ≠ (winner beats x xs).1 →
      R (winner beats x xs).1 y)
    (hnodup : xs.Nodup) (hs : ∀ y ∈ xs, y ∈ s) : (arrange beats xs).1.Pairwise R := by
  induction xs using arrange.induct beats with
  | case1 => simp [arrange]
  | case2 x xs best hwinner arranged changed harranged ih =>
    rw [arrange, hwinner]
    -- The first one stays, and so it comes before all others.
    obtain ⟨hx, hnodup⟩ := List.nodup_cons.mp hnodup
    have hstays : (winner beats x xs).1 = x := winner_fst_eq_self (by rw [hwinner])
    refine List.pairwise_cons.mpr ⟨fun y hy => ?_, ih hnodup fun y hy => hs y (.tail x hy)⟩
    have hmem : y ∈ xs := (arrange_perm beats xs).subset hy
    have hfirst := hprecedes x xs hs y (.tail x hmem)
    rw [hstays] at hfirst
    exact hfirst fun h => hx (h ▸ hmem)
  | case3 x xs best i hwinner ih =>
    rw [arrange, hwinner]
    -- The winner goes first, and the one it beat takes its place.
    have hperm := perm_of_winner hwinner
    obtain ⟨hbest, hrest⟩ := List.nodup_cons.mp (hperm.nodup_iff.mpr hnodup)
    have hfirst := hprecedes x xs hs
    rw [hwinner] at hfirst
    refine List.pairwise_cons.mpr ⟨fun y hy => ?_, ?_⟩
    · have hmem : y ∈ xs.set i x := (arrange_perm beats _).subset hy
      exact hfirst y (hperm.subset (.tail best hmem)) fun h : y = best => hbest (h ▸ hmem)
    · exact ih hrest fun y hy => hs y (hperm.subset (.tail best hy))

section Asymmetric

variable {s : Set α} (hasymm : ∀ a ∈ s, ∀ b ∈ s, a ≠ b → beats a b = true → beats b a = false)
include hasymm

/-- Where a greater key always wins, the winner has the greatest. -/
theorem le_winner (hwins : ∀ a ∈ s, ∀ b ∈ s, key b < key a → beats a b = true)
    (hs : ∀ y ∈ x :: xs, y ∈ s) : ∀ y ∈ x :: xs, key y ≤ key (winner beats x xs).1 := by
  rw [winner_fst]
  -- The winner so far has the highest key of those seen.
  induction xs generalizing x with
  | nil => simp
  | cons c cs ih =>
    obtain ⟨hx, hc, hcs⟩ : x ∈ s ∧ c ∈ s ∧ ∀ y ∈ cs, y ∈ s := by simpa using hs
    rw [List.foldl_cons]
    by_cases hbeats : beats c x = true
    · have hle : key x ≤ key c := by
        refine not_lt.mp fun hlt => ?_
        have hloses := hasymm c hc x hx (fun h => hlt.ne (congrArg key h)) hbeats
        rw [hwins x hx c hc hlt] at hloses
        cases hloses
      rw [if_pos hbeats]
      have hrest := ih (x := c) (List.forall_mem_cons.mpr ⟨hc, hcs⟩)
      rw [List.forall_mem_cons]
      exact ⟨hle.trans (hrest c List.mem_cons_self), hrest⟩
    · have hle : key c ≤ key x := not_lt.mp fun hlt => hbeats (hwins c hc x hx hlt)
      rw [if_neg hbeats]
      have hrest := ih (x := x) (List.forall_mem_cons.mpr ⟨hx, hcs⟩)
      rw [List.forall_mem_cons] at hrest
      rw [List.forall_mem_cons, List.forall_mem_cons]
      exact ⟨hrest.1, hle.trans hrest.1, hrest.2⟩

/-- Where a greater key always wins, the list is put in the order of the keys. -/
theorem arrange_pairwise_key (hwins : ∀ a ∈ s, ∀ b ∈ s, key b < key a → beats a b = true)
    (hnodup : xs.Nodup) (hs : ∀ y ∈ xs, y ∈ s) :
    (arrange beats xs).1.Pairwise fun x y => key y ≤ key x :=
  arrange_pairwise (fun _ _ hs y hy _ => le_winner hasymm hwins hs y hy) hnodup hs

omit [LinearOrder κ] in
/-- Where the comparison is transitive, the winner is beaten by none of the others. -/
theorem winner_unbeaten (htrans : ∀ a ∈ s, ∀ b ∈ s, ∀ c ∈ s, beats a b = true → beats b c = true →
      beats a c = true) (hs : ∀ y ∈ x :: xs, y ∈ s) :
    ∀ y ∈ x :: xs, y ≠ (winner beats x xs).1 → beats y (winner beats x xs).1 = false := by
  rw [winner_fst]
  -- The last winner has beaten the first one, in one step or through others.
  suffices h : ∀ w, xs.foldl (fun best y => if beats y best then y else best) x = w →
      w ∈ s ∧ (w = x ∨ beats w x = true) ∧ ∀ y ∈ x :: xs, y ≠ w → beats y w = false from (h _ rfl).2.2
  intro w hw
  induction xs generalizing x with
  -- The winner is compared with itself only.
  | nil =>
    obtain rfl := hw
    exact ⟨hs x List.mem_cons_self, .inl rfl, by simp⟩
  | cons c cs ih =>
    obtain ⟨hx, hc, hcs⟩ : x ∈ s ∧ c ∈ s ∧ ∀ y ∈ cs, y ∈ s := by simpa using hs
    rw [List.foldl_cons] at hw
    by_cases hbeats : beats c x = true
    · rw [if_pos hbeats] at hw
      obtain ⟨hmem, hwc, hrest⟩ := ih (x := c) (List.forall_mem_cons.mpr ⟨hc, hcs⟩) hw
      have hwx : beats w x = true := by
        rcases hwc with rfl | hwc
        · exact hbeats
        -- What beats the one that beat the first beats the first as well.
        · exact htrans w hmem c hc x hx hwc hbeats
      refine ⟨hmem, .inr hwx, List.forall_mem_cons.mpr ⟨fun hne => ?_, hrest⟩⟩
      exact hasymm w hmem x hx (Ne.symm hne) hwx
    · rw [if_neg hbeats] at hw
      obtain ⟨hmem, hwx, hrest⟩ := ih (x := x) (List.forall_mem_cons.mpr ⟨hx, hcs⟩) hw
      rw [List.forall_mem_cons] at hrest
      refine ⟨hmem, hwx, ?_⟩
      rw [List.forall_mem_cons, List.forall_mem_cons]
      refine ⟨hrest.1, fun _ => ?_, hrest.2⟩
      rw [← Bool.not_eq_true]
      -- The first one is not beaten by the challenger, so it does not lose to it through the winner.
      intro hcw
      rcases hwx with rfl | hwx
      · exact hbeats hcw
      · exact hbeats (htrans c hc w hmem x hx hcw hwx)

end Asymmetric

/-- An order by keys settles at once. -/
theorem arrange_settled (hnodup : xs.Nodup) (hkey : ∀ a ∈ xs, ∀ b ∈ xs, a ≠ b →
    (beats a b = true ↔ key b < key a)) :
    (arrange beats xs).1.Pairwise fun x y => beats y x = false := by
  have hloses : ∀ a ∈ xs, ∀ b ∈ xs, a ≠ b → key b ≤ key a → beats b a = false := by
    intro a ha b hb hne hle
    rw [← Bool.not_eq_true, hkey b hb a ha (Ne.symm hne)]
    exact hle.not_gt
  -- Within the list the keys decide alone, so ordered keys leave nothing to swap.
  have hpairwise : (arrange beats xs).1.Pairwise fun x y => key y ≤ key x :=
    arrange_pairwise_key (s := {y | y ∈ xs})
      (fun a ha b hb hne h => hloses a ha b hb hne ((hkey a ha b hb hne).mp h).le)
      (fun a ha b hb h => (hkey a ha b hb fun he => h.ne (congrArg key he.symm)).mpr h)
      hnodup fun _ => id
  have hperm := arrange_perm beats xs
  refine (hpairwise.and (hperm.nodup_iff.mpr hnodup)).imp_of_mem ?_
  rintro x y hx hy ⟨hle, hne⟩
  exact hloses x (hperm.subset hx) y (hperm.subset hy) hne hle

end Arrange

end Allocation

namespace Layer

/-- What decides between two layers on which stacking and update frequency agree: whether it is visible,
whether it has a position, its priority and its position, in this order. -/
def rank (l : Layer) : Bool ×ₗ Bool ×ₗ Nat ×ₗ Int :=
  toLex (l.isVisible, toLex (l.zpos?.isSome, toLex (l.priority, l.zpos?.getD 0)))

def Agrees (l m : Layer) : Prop :=
  l.intersects m = true → ∀ a ∈ l.zpos?, ∀ b ∈ m.zpos?,
    (a < b → l.priority ≤ m.priority) ∧ (b < a → m.priority ≤ l.priority)

variable {l l' m m' : Layer}

theorem precedes_iff (h : l.Agrees m) : l.precedes m = true ↔ m.rank < l.rank := by
  unfold precedes rank
  simp only [Prod.Lex.toLex_lt_toLex]
  -- Layers that are not equally visible are told apart by that alone.
  by_cases hvisible : l.isVisible = m.isVisible
  · rw [hvisible, if_neg (by simp)]
    cases hl : l.zpos? with
    | none => cases hm : m.zpos? <;> simp
    | some a =>
      cases hm : m.zpos? with
      | none => simp
      | some b =>
        simp only [lt_self_iff_false, false_or, true_and, Option.isSome_some, Option.getD_some]
        -- Only layers that overlap are compared by position first.
        split
        · rename_i hintersects
          have hagrees := h hintersects a hl b hm
          split <;> simp only [decide_eq_true_eq] <;> omega
        · split <;> simp only [decide_eq_true_eq] <;> omega
  · cases hl : l.isVisible <;> cases hm : m.isVisible <;> simp_all

def standing (l : Layer) : (Option Int × Bool × Rect) × Nat := (l.look, l.priority)

theorem precedes_congr (hl : l'.standing = l.standing) (hm : m'.standing = m.standing) :
    l'.precedes m' = l.precedes m := by
  obtain ⟨hlook, hpriority⟩ := Prod.mk.inj hl
  obtain ⟨hlook', hpriority'⟩ := Prod.mk.inj hm
  have hzpos : ∀ {l l' : Layer}, l'.look = l.look → l'.zpos? = l.zpos? := congrArg Prod.fst
  have hvisible : ∀ {l l' : Layer}, l'.look = l.look → l'.isVisible = l.isVisible :=
    fun h => congrArg (·.2.1) h
  simp only [precedes, hvisible hlook, hvisible hlook', hzpos hlook, hzpos hlook', hpriority,
    hpriority', intersects_congr hlook hlook']

end Layer

namespace Allocation

variable {layers layers' : Arena Layer} {composition : Option LayerId} {x y : LayerId} {lx ly : Layer}

/-- What decides between the layers of an output: the composition layer comes first, the others go by
their own ranks. -/
def rank (layers : Arena Layer) (composition : Option LayerId) (id : LayerId) :
    Bool ×ₗ WithBot (Bool ×ₗ Bool ×ₗ Nat ×ₗ Int) :=
  toLex (decide (composition = some id), (layers.get? id.toHandle).map Layer.rank)

/-- On layers that agree, the comparison is that of their ranks. -/
theorem isHigherPriority_iff (hx : layers.get? x.toHandle = some lx)
    (hy : layers.get? y.toHandle = some ly) (hne : x ≠ y) (h : lx.Agrees ly) :
    isHigherPriority layers composition x y = true ↔
      rank layers composition y < rank layers composition x := by
  simp only [isHigherPriority, rank, hx, hy, Prod.Lex.toLex_lt_toLex, Option.map_some]
  -- The composition layer comes before every other.
  by_cases hcx : composition = some x
  · simp [hcx, hne]
  · by_cases hcy : composition = some y
    · simp [hcy, Ne.symm hne]
    · rw [if_neg hcx, if_neg hcy, Layer.precedes_iff h]
      simp only [hcx, hcy, decide_false, lt_self_iff_false, false_or, true_and]
      exact WithBot.coe_lt_coe.symm

/-- The comparison reads nothing of a layer but its standing. -/
theorem isHigherPriority_congr (hx : (layers'.get? x.toHandle).map Layer.standing =
      (layers.get? x.toHandle).map Layer.standing)
    (hy : (layers'.get? y.toHandle).map Layer.standing =
      (layers.get? y.toHandle).map Layer.standing) :
    isHigherPriority layers' composition x y = isHigherPriority layers composition x y := by
  unfold isHigherPriority
  split
  · rfl
  · split
    · rfl
    · cases hlx : layers.get? x.toHandle with
      | none =>
        rw [hlx] at hx
        simp [Option.map_eq_none_iff.mp hx]
      | some lx =>
        rw [hlx] at hx
        obtain ⟨lx', hlx', hx⟩ := Option.map_eq_some_iff.mp hx
        cases hly : layers.get? y.toHandle with
        | none =>
          rw [hly] at hy
          simp [Option.map_eq_none_iff.mp hy]
        | some ly =>
          rw [hly] at hy
          obtain ⟨ly', hly', hy⟩ := Option.map_eq_some_iff.mp hy
          simp only [hlx', hly', Layer.precedes_congr hx hy]

end Allocation

namespace Device

variable {σ : Type}

def Settled (d : Device σ) (o : OutputId) : Prop :=
  ∀ out, d.output? o = some out → out.layers.Pairwise fun x y =>
    Allocation.isHigherPriority d.layers out.compositionLayer y x = false

def Harmonious (d : Device σ) (o : OutputId) : Prop :=
  ∀ x y lx ly, d.layer? x = some lx → d.layer? y = some ly → lx.output = o → ly.output = o →
    lx.Agrees ly

instance (d : Device σ) (o : OutputId) : Decidable (d.Settled o) :=
  decidable_of_iff ((d.output? o).all fun out => decide (out.layers.Pairwise fun x y =>
      Allocation.isHigherPriority d.layers out.compositionLayer y x = false)) (by
    simp only [Settled]
    cases d.output? o <;> simp)

end Device

end Scanout
