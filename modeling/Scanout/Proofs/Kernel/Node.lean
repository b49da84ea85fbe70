import Scanout.Kernel.Node
import Scanout.Plane.Basic
import Scanout.Proofs.Property.Descriptor

namespace Scanout

namespace IoError

theorem errno_of_system {code : Int} (hlow : 1 ≤ code) (hhigh : code < 4096) :
    (system code).errno = ⟨code⟩ := by simp [errno, hlow, hhigh]

/-- The allocator never sees a number that is none of the operating system's. -/
theorem errno_range (e : IoError) : 1 ≤ e.errno.code ∧ e.errno.code < 4096 := by
  cases e with
  | system code =>
    rw [errno]
    -- A code outside the range of error numbers is replaced by a fixed one.
    split
    · rename_i hrange
      simpa using hrange
    · decide
  | other text =>
    show 1 ≤ Errno.eio.code ∧ Errno.eio.code < 4096
    decide

/-- An error that was made up above the system rules out no combination, and asks for no second try. -/
theorem exists_system_of_lenient {e : IoError}
    (h : e.errno.isIncompatibility = true ∨ e.errno.isTransient = true) :
    ∃ code, e = .system code ∧ e.errno = ⟨code⟩ := by
  have hfirm : Errno.eio.isIncompatibility = false ∧ Errno.eio.isTransient = false := by decide
  cases e with
  -- The replacement is neither lenient nor transient, so the code was in the range.
  | system code =>
    rw [errno] at h ⊢
    split at h
    · exact ⟨code, rfl, by simp [*]⟩
    · simp [hfirm] at h
  | other text => simp [errno, hfirm] at h

end IoError

namespace Node

/-- Capabilities are asked for until one is refused, and that one is to blame. -/
theorem negotiate_spec (refusal? : Capability → Option IoError) (cs : List Capability) :
    (∀ c ∈ cs, refusal? c = none) ∧ negotiate refusal? cs = (cs, .ok ()) ∨
      ∃ granted c rest why, cs = granted ++ c :: rest ∧ (∀ c ∈ granted, refusal? c = none) ∧
        refusal? c = some why ∧ negotiate refusal? cs = (granted ++ [c], .error (.capability c why)) := by
  induction cs with
  | nil => exact .inl ⟨by simp, rfl⟩
  | cons c cs ih =>
    rw [negotiate]
    -- The first refusal ends the negotiation, and it is that capability that is reported.
    cases hrefusal : refusal? c with
    | some why => exact .inr ⟨[], c, cs, why, rfl, by simp, hrefusal, rfl⟩
    | none =>
      rcases ih with ⟨hgranted, hrun⟩ | ⟨granted, c', rest, why, rfl, hgranted, hrefused, hrun⟩
      · exact .inl ⟨List.forall_mem_cons.mpr ⟨hrefusal, hgranted⟩, by rw [hrun]⟩
      · exact .inr ⟨c :: granted, c', rest, why, rfl, List.forall_mem_cons.mpr ⟨hrefusal, hgranted⟩,
          hrefused, by rw [hrun]; rfl⟩

/-- A node can be used exactly if it opens and its device refuses nothing. -/
theorem openAt_eq_ok_iff (path : String) (opening : Except IoError (Capability → Option IoError)) :
    (openAt path opening).2 = .ok () ↔ ∃ refusal?, opening = .ok refusal? ∧ ∀ c, refusal? c = none := by
  cases opening with
  | error why => simp [openAt]
  | ok refusal? =>
    simp only [openAt, Except.ok.injEq, exists_eq_left']
    have hall : ∀ c, c ∈ Capability.all := by rintro (_ | _) <;> decide
    rcases negotiate_spec refusal? Capability.all with
      ⟨hgranted, hrun⟩ | ⟨granted, c, rest, why, -, -, hrefused, hrun⟩
    · simp [hrun, fun c => hgranted c (hall c)]
    · rw [hrun]
      refine ⟨nofun, fun hnone => ?_⟩
      rw [hnone c] at hrefused
      cases hrefused

/-- The device is given the whole request in its order with the flags that mean something, or nothing if a
write has an id that no object or property can have. -/
theorem commit_eq {ρ : Type} (api : AtomicApi ρ) (request : Request) (flags : CommitFlags) :
    commit api request flags =
      if ∀ w ∈ request.writes, w.object ≠ 0 ∧ w.property ≠ 0 then
        .ok (.commit (api.knownFlags flags.bits) (request.writes.foldl api.add api.empty))
      else .error .einval := by
  have hfold : ∀ (writes : List Write) (start : ρ), writes.foldlM (addWrite api) start =
      if ∀ w ∈ writes, w.object ≠ 0 ∧ w.property ≠ 0 then .ok (writes.foldl api.add start)
      else .error .einval := by
    -- Induction on the writes for every start, since the accumulated request grows with each of them.
    intro writes
    induction writes with
    | nil =>
      intro start
      simp only [List.not_mem_nil, false_imp_iff, implies_true, if_true]
      rfl
    | cons w writes ih =>
      intro start
      rw [List.foldlM_cons, addWrite]
      -- A write with a zero id is refused before it is added.
      by_cases hzero : w.object ≠ 0 ∧ w.property ≠ 0
      · have hpass : ¬ (w.object = 0 || w.property = 0) = true := by simpa using hzero
        rw [if_neg hpass]
        simp only [List.forall_mem_cons, and_iff_right hzero]
        exact ih (api.add start w)
      · have hstop : (w.object = 0 || w.property = 0) = true := by
          simpa only [Bool.or_eq_true, decide_eq_true_eq, not_and_or, not_not] using hzero
        rw [if_pos hstop, if_neg fun h => hzero (h w List.mem_cons_self)]
        rfl
  rw [commit, hfold]
  split <;> rfl

/-- Nothing is known of a framebuffer if its format has no name or the question counts as invalid. Any
other failure is reported as it is. -/
theorem framebufferAnswer_eq_error_iff (e : FbError) (errno : Errno) :
    framebufferAnswer e = .error errno ↔ ∃ why, e = .failed why ∧ why.errno = errno ∧ errno ≠ .einval := by
  cases e with
  | unknownFormat code => simp [framebufferAnswer]
  | failed why =>
    simp only [framebufferAnswer, FbError.failed.injEq, exists_eq_left']
    split
    -- An invalid argument says that the framebuffer is not known, which is no failure.
    · rename_i hinval
      refine ⟨nofun, ?_⟩
      rintro ⟨rfl, hother⟩
      exact absurd hinval hother
    · rename_i hother
      rw [Except.error.injEq]
      exact ⟨fun h => ⟨h, h ▸ hother⟩, And.left⟩

theorem framebufferAnswer_ne_some (e : FbError) (fb : Framebuffer) : framebufferAnswer e ≠ .ok (some fb) := by
  cases e with
  | unknownFormat code => simp [framebufferAnswer]
  | failed why =>
    rw [framebufferAnswer]
    split <;> simp

/-- The values of a switch are zero and one. -/
theorem declares_boolean_iff (value : UInt64) :
    ValueType.boolean.kind.Declares value ↔ value = 0 ∨ value = 1 := by
  have hword : value = 0 ∨ value = 1 ↔ value.toNat = 0 ∨ value.toNat = 1 := by
    simp [← UInt64.toNat_inj]
  rw [hword]
  show 0 ≤ value.toNat ∧ value.toNat ≤ 1 ↔ _
  omega

/-- The bit of a position has the value of that power of two, and positions from 32 on have none. -/
theorem toNat_crtcBit {position : Nat} {bit : UInt32} (h : crtcBit? position = some bit) :
    position < 32 ∧ bit.toNat = 2 ^ position := by
  unfold crtcBit? at h
  split at h
  · rename_i hshort
    refine ⟨hshort, ?_⟩
    rw [← Option.some.inj h, UInt32.toNat_shiftLeft, UInt32.toNat_one,
      UInt32.toNat_ofNat_of_lt' (Nat.lt_trans hshort (by decide)), Nat.mod_eq_of_lt hshort,
      Nat.shiftLeft_eq, Nat.one_mul]
    -- No bit is shifted out of the word.
    exact Nat.mod_eq_of_lt (Nat.pow_lt_pow_right (by decide) hshort)
  · cases h

theorem testBit_foldl_or (bits : List UInt32) (mask : UInt32) (i : Nat) :
    (bits.foldl (· ||| ·) mask).toNat.testBit i = true ↔
      mask.toNat.testBit i = true ∨ ∃ bit ∈ bits, bit.toNat.testBit i = true := by
  induction bits generalizing mask with
  | nil => simp
  | cons bit bits ih =>
    rw [List.foldl_cons, ih, UInt32.toNat_or, Nat.testBit_or]
    simp [or_assoc]

/-- A plane can serve the pipe at a position exactly if the device says so and the position has a bit. -/
theorem canServe_iff {crtcs usable : List UInt32} {properties : List (Declaration × UInt64)} {p : Plane}
    (h : p.possibleCrtcs = (planeAnswer crtcs usable properties).possibleCrtcs) (i : Nat) :
    p.canServe i = true ↔ i < 32 ∧ ∃ crtc, crtcs[i]? = some crtc ∧ crtc ∈ usable := by
  rw [Plane.canServe, h, planeAnswer, crtcMask, testBit_foldl_or]
  simp only [UInt32.toNat_zero, Nat.zero_testBit, Bool.false_eq_true, false_or, List.mem_filterMap,
    List.mem_filter, List.contains_iff_mem]
  -- A position is served when one of the bits in the mask is its own.
  constructor
  · rintro ⟨bit, ⟨⟨crtc, position⟩, ⟨hmem, husable⟩, hbit⟩, hset⟩
    obtain ⟨hshort, hvalue⟩ := toNat_crtcBit hbit
    rw [hvalue, Nat.testBit_two_pow, decide_eq_true_eq] at hset
    subst hset
    exact ⟨hshort, crtc, List.mem_zipIdx_iff_getElem?.mp hmem, husable⟩
  · rintro ⟨hshort, crtc, hcrtc, husable⟩
    refine ⟨1 <<< UInt32.ofNat i, ⟨(crtc, i), ⟨List.mem_zipIdx_iff_getElem?.mpr hcrtc, husable⟩,
      if_pos hshort⟩, ?_⟩
    rw [(toNat_crtcBit (if_pos hshort)).2, Nat.testBit_two_pow, decide_eq_true_eq]

theorem toNat_timeOf (seconds nanos : Int) : (timeOf seconds nanos).ticks.toNat =
    min (seconds.toNat * 1000000000 + min nanos.toNat 999999999) (UInt64.size - 1) := by
  rw [timeOf, UInt64.toNat_ofNat_of_lt']
  exact Nat.lt_of_le_of_lt (Nat.min_le_right _ _) (by decide)

/-- Readings do not run backwards when the clock does not. A clock that has not reached zero may seem to,
since parts of a second count before it. -/
theorem timeOf_mono {seconds seconds' nanos nanos' : Int} (hstarted : 0 ≤ seconds)
    (h : seconds < seconds' ∨ seconds = seconds' ∧ nanos ≤ nanos') :
    (timeOf seconds nanos).ticks ≤ (timeOf seconds' nanos').ticks := by
  rw [UInt64.le_iff_toNat_le, toNat_timeOf, toNat_timeOf]
  omega

end Node

end Scanout
