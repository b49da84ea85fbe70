import Scanout.Kernel.Mock
import Scanout.Proofs.Kernel.Asks
import Scanout.Proofs.Plane.Writes

namespace Scanout
namespace Mock

section Ids

theorem or_and_distrib (a b c : UInt32) : (a ||| b) &&& c = a &&& c ||| b &&& c := by
  rw [← UInt32.toBitVec_inj]
  ext i
  simp
  grind

theorem id_parts (x : UInt32) : x &&& indexMask ||| x &&& ~~~indexMask = x := by
  rw [← UInt32.toBitVec_inj]
  ext i
  simp
  grind

/-- An index belongs to one id of each sort. -/
theorem eq_objectId {x tag : UInt32} {i : Nat} (h : objectIndex? x.toUInt64 tag = some i) :
    x = objectId i tag := by
  simp only [objectIndex?, UInt32.toUInt32_toUInt64, UInt32.toNat_toUInt64] at h
  split at h
  · rename_i hsort
    obtain rfl := Option.some.inj h
    -- The id is its two parts, and each part is now known.
    have htag : x &&& ~~~indexMask = tag := by simpa using (Bool.and_eq_true_iff.mp hsort).2
    have hlt : (x &&& indexMask).toNat < UInt32.size := UInt32.toNat_lt _
    rw [objectId, if_pos hlt, UInt32.ofNat_toNat, UInt32.and_assoc, UInt32.and_self, ← htag]
    exact (id_parts x).symm
  · cases h

/-- The position can be read off an id, as long as there is room for it. -/
theorem objectIndex?_objectId {i : Nat} (hi : i ≤ indexMask.toNat) {tag : UInt32}
    (htag : tag &&& indexMask = 0) : objectIndex? (objectId i tag).toUInt64 tag = some i := by
  have hsize : i < UInt32.size := Nat.lt_of_le_of_lt hi (by decide)
  have hmasked : (UInt32.ofNat i &&& indexMask).toNat = i := by
    have hmask : indexMask.toNat = 2 ^ 24 - 1 := by decide
    have hlt : i < 2 ^ 24 := Nat.lt_of_le_of_lt hi (by decide)
    rw [UInt32.toNat_and, UInt32.toNat_ofNat_of_lt' hsize, hmask, Nat.and_two_pow_sub_one_eq_mod,
      Nat.mod_eq_of_lt hlt]
  have hid : objectId i tag = UInt32.ofNat i &&& indexMask ||| tag := by
    rw [objectId, if_pos hsize]
  have hindex : objectId i tag &&& indexMask = UInt32.ofNat i &&& indexMask := by
    rw [hid, or_and_distrib, htag, UInt32.or_zero, UInt32.and_assoc, UInt32.and_self]
  -- Masked one way the id gives the position, masked the other way the sort.
  have hsort : objectId i tag &&& ~~~indexMask = tag := by
    have htag' := id_parts tag
    rw [htag, UInt32.zero_or] at htag'
    rw [hid, or_and_distrib, htag', UInt32.and_assoc, UInt32.and_not_self, UInt32.and_zero,
      UInt32.zero_or]
  simp only [objectIndex?, UInt32.toUInt32_toUInt64, UInt32.toNat_toUInt64]
  rw [if_pos, hindex, hmasked]
  simpa [hsort] using UInt32.toNat_lt _

/-- While there is room for positions, different positions have different ids. -/
theorem objectId_inj {i j : Nat} (hi : i ≤ indexMask.toNat) (hj : j ≤ indexMask.toNat) {tag : UInt32}
    (htag : tag &&& indexMask = 0) (h : objectId i tag = objectId j tag) : i = j := by
  have hsame := congrArg (fun x : UInt32 => objectIndex? x.toUInt64 tag) h
  simp only [objectIndex?_objectId hi htag, objectIndex?_objectId hj htag] at hsame
  exact Option.some.inj hsame

theorem objectId_ne_zero {tag : UInt32} (htag : tag ≠ 0) (i : Nat) : objectId i tag ≠ 0 := by
  intro h
  have hle : tag.toNat ≤ (objectId i tag).toNat := by
    rw [objectId, UInt32.toNat_or]
    exact Nat.right_le_or
  rw [h] at hle
  exact htag (UInt32.toNat_inj.mp (Nat.le_zero.mp hle))

end Ids

theorem find?_modify {α κ : Type} [DecidableEq κ] (key : α → κ) {f : α → α}
    (hf : ∀ a, key (f a) = key a) {xs : List α} {k : κ} {j : Nat}
    (hj : xs.findIdx? (fun a => key a = k) = some j) (k' : κ) :
    (xs.modify j f).find? (fun a => key a = k') =
      if k' = k then (xs.find? fun a => key a = k').map f else xs.find? fun a => key a = k' := by
  -- Induction on the list up to the element that changes; behind it nothing differs.
  induction xs generalizing j with
  | nil => cases hj
  | cons x xs ih =>
    rw [List.findIdx?_cons] at hj
    split at hj
    · rename_i hx
      have hx : key x = k := of_decide_eq_true hx
      cases hj
      rw [List.modify_zero_cons]
      by_cases hk : k' = k
      · rw [if_pos hk, List.find?_cons_of_pos (by simp [hf, hx, hk]),
          List.find?_cons_of_pos (by simp [hx, hk])]
        rfl
      · have hne : ¬ k = k' := fun he => hk he.symm
        rw [if_neg hk, List.find?_cons_of_neg (by simp [hf, hx, hne]),
          List.find?_cons_of_neg (by simp [hx, hne])]
    · rename_i hx
      have hx : key x ≠ k := by simpa using hx
      obtain ⟨j', hj', rfl⟩ := Option.map_eq_some_iff.mp hj
      -- The element passed has another key, so `k'` is looked up behind it.
      rw [List.modify_succ_cons, List.find?_cons, List.find?_cons, ih hj']
      by_cases hk : key x = k'
      · have hne : k' ≠ k := hk ▸ hx
        simp [hk, hne]
      · simp [hk]

theorem Plane.value?_setValue (p : Plane) (i : Nat) (v : UInt64) (i' : Nat) :
    (p.setValue i v).value? i' = if i' = i then (p.value? i').map fun _ => v else p.value? i' := by
  unfold setValue
  -- The property has an entry, and it is the value of that entry that changes.
  split
  · rename_i j hj
    have hfind := find?_modify Prod.fst (f := fun w : Nat × UInt64 => (w.1, v)) (fun _ => rfl) hj i'
    simp only [value?, hfind]
    split
    · rw [Option.map_map, Option.map_map]
      rfl
    · rfl
  · rename_i hnone
    -- The plane does not have this property, before or after.
    rw [List.findIdx?_eq_none_iff] at hnone
    split
    · rename_i hi
      subst hi
      have hempty : p.values.find? (fun v => v.1 = i') = none := by
        rw [List.find?_eq_none]
        exact fun v hv => by simpa using hnone v hv
      simp only [value?, hempty, Option.map_none]
    · rfl

def value? (m : Mock) (q : UInt32) (i : Nat) : Option UInt64 := (m.plane? q).bind (·.value? i)

theorem planeLayer?_eq (m : Mock) (q : UInt32) :
    m.planeLayer? q = (m.value? q fbIndex).bind m.fbLayer? := rfl

theorem value?_applyWrite (m : Mock) (w : Write) (q : UInt32) (i : Nat) :
    (m.applyWrite w).value? q i = if w.object = q ∧ m.propertyIndex? w.property = some i then
      (m.value? q i).map fun _ => w.value else m.value? q i := by
  unfold applyWrite
  split
  · rename_i i' j hi' hj
    -- A write leaves the id of its plane as it is.
    have hfind := find?_modify Plane.id (f := fun p : Plane => p.setValue i' w.value)
      (fun p => by unfold Plane.setValue; split <;> rfl) hj q
    simp only [value?, plane?, hfind, hi', Option.some.injEq]
    -- Another plane is not changed, and neither is another property of this one.
    by_cases hq : q = w.object
    · rw [if_pos hq, Option.bind_map]
      simp only [hq, true_and]
      cases m.planes.find? fun p => p.id = w.object with
      | none => simp
      | some p => simp [Plane.value?_setValue, eq_comm]
    · have hne : ¬ (w.object = q ∧ i' = i) := fun h => hq h.1.symm
      rw [if_neg hq, if_neg hne]
  · -- The write names no plane or no property, so there is no value that it could change.
    rename_i hnone
    split
    · rename_i hw
      obtain ⟨rfl, hi⟩ := hw
      have hunknown : m.plane? w.object = none := by
        have hidx := Option.eq_none_iff_forall_ne_some.mpr fun j hj => hnone i j hi hj
        rw [List.findIdx?_eq_none_iff] at hidx
        exact List.find?_eq_none.mpr fun p hp => by simpa using hidx p hp
      simp only [value?, hunknown, Option.bind_none, Option.map_none]
    · rfl

theorem applyWrite_fixed (m : Mock) (w : Write) :
    (m.applyWrite w).properties = m.properties ∧ (m.applyWrite w).fbs = m.fbs := by
  unfold applyWrite
  split <;> exact ⟨rfl, rfl⟩

theorem propertyIndex?_applyWrite (m : Mock) (w : Write) (x : UInt32) :
    (m.applyWrite w).propertyIndex? x = m.propertyIndex? x := by
  simp only [propertyIndex?, (m.applyWrite_fixed w).1]

theorem fbLayer?_foldl (m : Mock) (ws : List Write) : (ws.foldl applyWrite m).fbLayer? = m.fbLayer? := by
  induction ws generalizing m with
  | nil => rfl
  | cons w ws ih =>
    rw [List.foldl_cons, ih]
    funext fb
    simp only [fbLayer?, (m.applyWrite_fixed w).2]

/-- After several writes each value is the one written last, if one was written. -/
theorem value?_foldl {i : Nat} {x : UInt32} {m : Mock}
    (hx : ∀ y, m.propertyIndex? y = some i ↔ y = x) (ws : List Write) (q : UInt32) :
    (ws.foldl applyWrite m).value? q i =
      (m.value? q i).map fun v => (Request.value? ⟨ws⟩ q x).getD v := by
  -- The first write counts only if no later one does; what comes after it is the hypothesis.
  induction ws generalizing m with
  | nil => simp [Request.value?_nil]
  | cons w ws ih =>
    have hfirst : Request.value? ⟨w :: ws⟩ q x =
        (Request.value? ⟨ws⟩ q x).or (Request.value? ⟨[w]⟩ q x) := Request.value?_append ⟨[w]⟩ ws q x
    rw [List.foldl_cons, ih fun y => by rw [propertyIndex?_applyWrite, hx], value?_applyWrite, hfirst]
    simp only [hx]
    -- Does the first write give this property a value?
    split
    · rename_i hw
      have hone : Request.value? ⟨[w]⟩ q x = some w.value := by simp [Request.value?, hw]
      rw [Option.map_map, hone]
      refine Option.map_congr fun v _ => ?_
      cases Request.value? ⟨ws⟩ q x <;> rfl
    · rename_i hw
      have hone : Request.value? ⟨[w]⟩ q x = none := by simpa [Request.value?] using hw
      rw [hone, Option.or_none]

theorem forM_eq_ok_iff {α : Type} {f : α → Except Errno Unit} {xs : List α} :
    xs.forM f = .ok () ↔ ∀ a ∈ xs, f a = .ok () := by
  induction xs with
  | nil => simp [pure, Except.pure]
  | cons x xs ih =>
    have hstep : (x :: xs).forM f = f x >>= fun _ => xs.forM f := rfl
    rw [hstep, List.forall_mem_cons, ← ih]
    cases f x <;> simp [bind, Except.bind]

/-- A request is let pass if each write can be carried out and the planes fit together after it. -/
theorem validate_eq_ok_iff (m : Mock) (r : Request) :
    m.validate r = .ok () ↔ (∀ w ∈ r.writes, m.checkWrite w = .ok ()) ∧
      ∃ lit, m.litPlanes r m.planes = .ok lit ∧
        (m.requiresPrimary && !lit.isEmpty && !lit.any Plane.isPrimary) = false := by
  rw [validate, ← forM_eq_ok_iff]
  cases r.writes.forM m.checkWrite with
  -- A write that fails its check ends the validation there.
  | error e => simp [bind, Except.bind]
  | ok _ =>
    cases m.litPlanes r m.planes with
    | error e => simp [bind, Except.bind]
    | ok lit =>
      simp only [bind, Except.bind, true_and, Except.ok.injEq, exists_eq_left']
      split
      · rename_i hunlit
        simp [hunlit]
      · rename_i hlit
        simpa using hlit

theorem valueAfter_congr {r r' : Request} (h : ∀ q x, r'.value? q x = r.value? q x) (p : Plane)
    (i : Nat) : valueAfter r' p i = valueAfter r p i := by
  simp only [valueAfter, h]

theorem litPlanes_congr (m : Mock) {r r' : Request} (h : ∀ q x, r'.value? q x = r.value? q x)
    (planes : List Plane) : m.litPlanes r' planes = m.litPlanes r planes := by
  induction planes with
  | nil => rfl
  | cons p planes ih => simp only [litPlanes, checkPlane, valueAfter_congr h, ih]

/-- Requests that give all properties the same values are let pass together. -/
theorem validate_congr {m : Mock} {r r' : Request} (h : ∀ q x, r'.value? q x = r.value? q x)
    (hr : m.validate r = .ok ()) : m.validate r' = .ok () := by
  rw [validate_eq_ok_iff] at hr ⊢
  refine ⟨fun w' hw' => ?_, m.litPlanes_congr h m.planes ▸ hr.2⟩
  -- Something is written to the same property in the other request, and the value does not matter.
  have hwritten : (r.value? w'.object w'.property).isSome = true := by
    rw [← h, Request.isSome_value?_iff]
    exact ⟨w', hw', rfl, rfl⟩
  obtain ⟨w, hw, hobject, hproperty⟩ := (Request.isSome_value?_iff r _ _).mp hwritten
  have hcheck := hr.1 w hw
  rw [checkWrite, hobject, hproperty] at hcheck
  exact hcheck

theorem checkPlane_of_litPlanes {m : Mock} {r : Request} {planes lit : List Plane}
    (h : m.litPlanes r planes = .ok lit) {p : Plane} (hp : p ∈ planes) :
    ∃ b, m.checkPlane r p = .ok b := by
  -- Induction on the planes; they are checked one after the other.
  induction planes generalizing lit with
  | nil => cases hp
  | cons p' planes ih =>
    rw [litPlanes] at h
    cases hcheck : m.checkPlane r p' with
    | error e =>
      rw [hcheck] at h
      cases h
    | ok b =>
      rw [hcheck] at h
      cases hrest : m.litPlanes r planes with
      | error e =>
        rw [hrest] at h
        cases h
      | ok lit' =>
        rcases List.mem_cons.mp hp with rfl | hp
        · exact ⟨b, hcheck⟩
        · exact ih hrest hp

/-- A plane passes its check if it is dark, or shows what it takes on a pipe it can serve. -/
theorem checkPlane_eq_ok {m : Mock} {r : Request} {p : Plane} {b : Bool}
    (h : m.checkPlane r p = .ok b) :
    (valueAfter r p fbIndex = 0 ↔ valueAfter r p crtcIndex = 0) ∧
      (valueAfter r p fbIndex ≠ 0 → ∃ i layer, m.crtcIndex? (valueAfter r p crtcIndex) = some i ∧
        m.fbLayer? (valueAfter r p fbIndex) = some layer ∧
        p.possibleCrtcs.toNat.testBit i = true ∧ layer ∈ p.compatible) := by
  simp only [checkPlane] at h
  split at h
  · cases h
  -- Either both are set or neither is.
  · rename_i hboth
    refine ⟨by simpa using hboth, fun hlit => ?_⟩
    rw [if_neg hlit] at h
    split at h
    · rename_i i layer hi hlayer
      split at h
      · rename_i hfits
        rw [Bool.and_eq_true, List.contains_iff_mem] at hfits
        exact ⟨i, layer, hi, hlayer, hfits.1, hfits.2⟩
      · cases h
    · cases h

theorem both_of_litPlanes {m : Mock} {r : Request} {planes lit : List Plane}
    (h : m.litPlanes r planes = .ok lit) {p : Plane} (hp : p ∈ planes) :
    valueAfter r p fbIndex = 0 ↔ valueAfter r p crtcIndex = 0 := by
  obtain ⟨b, hcheck⟩ := checkPlane_of_litPlanes h hp
  exact (checkPlane_eq_ok hcheck).1

theorem litPlanes_eq_nil {m : Mock} {r : Request} {planes : List Plane}
    (h : ∀ p ∈ planes, valueAfter r p fbIndex = 0 ∧ valueAfter r p crtcIndex = 0) :
    m.litPlanes r planes = .ok [] := by
  induction planes with
  | nil => rfl
  | cons p planes ih =>
    obtain ⟨hfb, hcrtc⟩ := h p List.mem_cons_self
    have hrest := ih fun p' hp' => h p' (List.mem_cons_of_mem p hp')
    -- Neither is set, so the first plane passes its check unlit.
    simp [litPlanes, checkPlane, hfb, hcrtc, hrest, bind, Except.bind, pure, Except.pure]

/-- The driver has been asked in between, which leaves the objects alone. -/
def Asked (m m' : Mock) : Prop := ∃ commitFlags clock, m' = { m with commitFlags, clock }

theorem Asked.fixed {m m' : Mock} (h : m.Asked m') :
    m'.planes = m.planes ∧ m'.properties = m.properties ∧ m'.injected = m.injected := by
  obtain ⟨commitFlags, clock, rfl⟩ := h
  exact ⟨rfl, rfl, rfl⟩

/-- Being asked changes the clock and the counters only, and no verdict depends on them. -/
theorem Asked.validate {m m' : Mock} (h : m.Asked m') (r : Request) :
    m'.validate r = m.validate r := by
  obtain ⟨commitFlags, clock, rfl⟩ := h
  have hlit : ∀ planes, { m with commitFlags, clock }.litPlanes r planes = m.litPlanes r planes := by
    intro planes
    induction planes with
    | nil => rfl
    | cons p planes ih =>
      rw [litPlanes, litPlanes, ih]
      rfl
  simp only [Mock.validate, hlit]
  rfl

theorem asked_countCommit (m : Mock) (flags : CommitFlags) : m.Asked (m.countCommit flags) :=
  ⟨_, _, rfl⟩

theorem commit_eq {m : Mock} (hinjected : m.injected = []) (r : Request) (flags : CommitFlags) :
    Kernel.commit m r flags = match m.validate r with
      | .error e => (.error e, m.countCommit flags)
      | .ok () => (.ok (), if flags.isTest then m.countCommit flags
          else r.writes.foldl applyWrite (m.countCommit flags)) := by
  have hpending : (m.countCommit flags).injected = [] := hinjected
  have hverdict := (m.asked_countCommit flags).validate r
  show m.commit r flags = _
  cases hvalid : m.validate r <;> simp only [commit, hpending, hverdict, hvalid]

/-- Without failures to come a test only passes if the request is valid. -/
theorem notes {m₀ : Mock} (hinjected : m₀.injected = []) (flags : CommitFlags) :
    Kernel.Notes flags m₀.Asked fun _ r => m₀.validate r = .ok () where
  now m hm := ⟨hm, fun _ hr => hr⟩
  test m r hm := by
    -- The verdict on the request is the one at the start.
    have hverdict := hm.validate r
    obtain ⟨commitFlags, clock, rfl⟩ := hm
    have hcommit := commit_eq (m := { m₀ with commitFlags, clock }) hinjected r flags.forTest
    have hbound : Kernel.interruptions { m₀ with commitFlags, clock } r flags.forTest = some 0 := by
      simp only [Kernel.interruptions, hinjected, List.length_nil]
    rw [hverdict, CommitFlags.isTest_forTest, if_pos rfl] at hcommit
    -- An accepted request is noted, a refused one is not.
    cases hvalid : m₀.validate r with
    | error e =>
      rw [hvalid] at hcommit
      rw [Kernel.test_of_error hbound hcommit, if_neg (by simp [validate_not_transient hvalid])]
      exact ⟨⟨_, _, rfl⟩, fun _ hr => hr, nofun⟩
    | ok _ =>
      rw [hvalid] at hcommit
      rw [Kernel.test_of_ok hbound hcommit]
      exact ⟨⟨_, _, rfl⟩, fun _ hr => hr, fun _ => rfl⟩

end Mock
end Scanout
