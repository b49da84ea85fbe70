import Scanout.Proofs.Allocation.Budget

/-! What a time limit comes to in ticks of the driver's clock. The conversion is exact and rounds down, but
only the low 64 bits of its outcome are kept. So a longer limit comes to fewer ticks exactly if the cut takes
more off it, beyond what it takes off the shorter one, than it is longer. -/

namespace Scanout

namespace Timebase

/-- The ticks of a number of nanoseconds, rounded down, however many they are. -/
def exactTicks (tb : Timebase) (nanos : UInt64) : Nat :=
  nanos.toNat * tb.denom.toNat / tb.numer.toNat

/-- The ticks that have no place in 64 bits. -/
def lostTicks (tb : Timebase) (nanos : UInt64) : Nat :=
  tb.exactTicks nanos / UInt64.size * UInt64.size

variable (tb : Timebase) {nanos m n : UInt64}

theorem toNat_nanosToTicks (nanos : UInt64) :
    (tb.nanosToTicks nanos).toNat = tb.exactTicks nanos % UInt64.size := by
  rw [nanosToTicks, TickRatio.scale, UInt64.toNat_ofNat']
  rfl

theorem toNat_nanosToTicks_add_lostTicks (nanos : UInt64) :
    (tb.nanosToTicks nanos).toNat + tb.lostTicks nanos = tb.exactTicks nanos := by
  rw [toNat_nanosToTicks, lostTicks, Nat.mul_comm]
  exact Nat.mod_add_div _ _

theorem exactTicks_le (h : m ≤ n) : tb.exactTicks m ≤ tb.exactTicks n :=
  Nat.div_le_div_right (Nat.mul_le_mul_right _ (UInt64.le_iff_toNat_le.mp h))

theorem lostTicks_le (h : m ≤ n) : tb.lostTicks m ≤ tb.lostTicks n :=
  Nat.mul_le_mul_right _ (Nat.div_le_div_right (tb.exactTicks_le h))

theorem lostTicks_eq_zero (h : tb.exactTicks nanos < UInt64.size) : tb.lostTicks nanos = 0 := by
  rw [lostTicks, Nat.div_eq_of_lt h, Nat.zero_mul]

/-- Ticks of at least a nanosecond are not more than the nanoseconds. -/
theorem exactTicks_lt (h : tb.denom ≤ tb.numer) (nanos : UInt64) :
    tb.exactTicks nanos < UInt64.size := by
  refine Nat.lt_of_le_of_lt ?_ nanos.toNat_lt
  refine Nat.div_le_of_le_mul ?_
  rw [Nat.mul_comm]
  exact Nat.mul_le_mul_right _ (UInt32.le_iff_toNat_le.mp h)

theorem duration_le_iff (h : m ≤ n) : tb.duration m ≤ tb.duration n ↔
    tb.lostTicks n - tb.lostTicks m ≤ tb.exactTicks n - tb.exactTicks m := by
  -- Each exact count is what is kept of it and what is lost.
  have hm := tb.toNat_nanosToTicks_add_lostTicks m
  have hn := tb.toNat_nanosToTicks_add_lostTicks n
  have hexact := tb.exactTicks_le h
  have hlost := tb.lostTicks_le h
  change tb.nanosToTicks m ≤ tb.nanosToTicks n ↔ _
  rw [UInt64.le_iff_toNat_le]
  omega

end Timebase

theorem ApplyOptions.searchTime_of_ne_zero {n : UInt64} (h : n ≠ 0) (c : Config) :
    ApplyOptions.searchTime ⟨some n⟩ c = n := by
  simp [ApplyOptions.searchTime, h]

namespace Allocation

open Device

variable {σ : Type} [Kernel σ]

/-- Of two times that are asked for, the longer one comes to at least as many ticks exactly if what the cut
to 64 bits takes off it, beyond what it takes off the shorter one, is no more than it is longer. That is so
whenever the exact number of ticks fits into 64 bits, and so for all times on a clock whose ticks are no
shorter than a nanosecond. -/
theorem budget_le_iff_lostTicks (d : Device σ) {m n : UInt64} (hm : m ≠ 0) (hle : m ≤ n) :
    let tb := Kernel.timebase d.session.kernel
    (budget d ⟨some m⟩ ≤ budget d ⟨some n⟩ ↔
        tb.lostTicks n - tb.lostTicks m ≤ tb.exactTicks n - tb.exactTicks m) ∧
      (tb.exactTicks n < UInt64.size → budget d ⟨some m⟩ ≤ budget d ⟨some n⟩) ∧
      (tb.denom ≤ tb.numer → budget d ⟨some m⟩ ≤ budget d ⟨some n⟩) := by
  intro tb
  have hn : n ≠ 0 := by
    rintro rfl
    exact hm (UInt64.le_zero_iff.mp hle)
  have hiff : budget d ⟨some m⟩ ≤ budget d ⟨some n⟩ ↔
      tb.lostTicks n - tb.lostTicks m ≤ tb.exactTicks n - tb.exactTicks m := by
    -- With a limit of its own an apply does not ask for the default.
    rw [budget, budget, ApplyOptions.searchTime_of_ne_zero hm, ApplyOptions.searchTime_of_ne_zero hn]
    exact tb.duration_le_iff hle
  have hfits : tb.exactTicks n < UInt64.size → budget d ⟨some m⟩ ≤ budget d ⟨some n⟩ := by
    intro hlt
    -- While the exact count fits, nothing is lost.
    rw [hiff, tb.lostTicks_eq_zero hlt, Nat.zero_sub]
    exact Nat.zero_le _
  exact ⟨hiff, hfits, fun hcoarse => hfits (tb.exactTicks_lt hcoarse n)⟩

def halfNanos : Device Scripted :=
  threeLayers.after (.drive fun k => { k with timebase := ⟨⟨1, 2⟩, by decide, by decide⟩ })

/-- Up to 2⁶² nanoseconds all is well on that clock. -/
theorem budget_le_halfNanos :
    (1 : UInt64) ≠ 0 ∧ (1 : UInt64) ≤ 4611686018427387904 ∧ (Kernel.timebase halfNanos.session.kernel).numer = 1 ∧
      (Kernel.timebase halfNanos.session.kernel).denom = 2 ∧
      budget halfNanos ⟨some 1⟩ ≤ budget halfNanos ⟨some 4611686018427387904⟩ := by
  refine ⟨by decide, by decide, by decide +kernel, by decide +kernel, ?_⟩
  exact (budget_le_iff_lostTicks halfNanos (by decide) (by decide)).2.1 (by decide +kernel)

/-- A longer time may come to fewer ticks: of 2⁶³ nanoseconds, at two ticks each, nothing is left. -/
theorem not_forall_budget_le : ¬ ∀ (d : Device Scripted) (m n : UInt64), m ≠ 0 → n ≠ 0 → m ≤ n →
    budget d ⟨some m⟩ ≤ budget d ⟨some n⟩ := by
  intro h
  exact absurd (h halfNanos 1 9223372036854775808 (by decide) (by decide) (by decide)) (by decide +kernel)

end Allocation

end Scanout
