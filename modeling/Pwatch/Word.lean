import Mathlib.Data.UInt

/-!
# Machine words

The operations of `u64` that the program uses and Lean does not have, `checked_add` and
`saturating_sub`, and the cast of a `u32` to an `i32`.
-/

namespace Pwatch

/-- `u64::checked_add`. -/
def checkedAdd (a b : UInt64) : Option UInt64 :=
  if a.toNat + b.toNat < 2 ^ 64 then some (a + b) else none

/-- `u64::saturating_sub`. -/
def saturatingSub (a b : UInt64) : UInt64 := if b ≤ a then a - b else 0

/-- `checked_add` is the sum of the numbers, where that is a `u64`. -/
theorem checkedAdd_eq_some {a b c : UInt64} :
    checkedAdd a b = some c ↔ a.toNat + b.toNat = c.toNat := by
  unfold checkedAdd
  split <;> rename_i h
  · rw [Option.some.injEq, ← UInt64.toNat_inj, UInt64.toNat_add, Nat.mod_eq_of_lt h]
  · refine iff_of_false nofun fun hc ↦ h ?_
    rw [hc]
    exact c.toNat_lt

theorem checkedAdd_eq_none {a b : UInt64} :
    checkedAdd a b = none ↔ 2 ^ 64 ≤ a.toNat + b.toNat := by
  unfold checkedAdd
  split <;> rename_i h
  · exact iff_of_false nofun (Nat.not_le.mpr h)
  · exact iff_of_true rfl (Nat.not_lt.mp h)

theorem toNat_saturatingSub (a b : UInt64) :
    (saturatingSub a b).toNat = a.toNat - b.toNat := by
  unfold saturatingSub
  split <;> rename_i h
  · exact UInt64.toNat_sub_of_le a b h
  · rw [UInt64.le_iff_toNat_le, Nat.not_le] at h
    exact (Nat.sub_eq_zero_of_le h.le).symm

/-- A cast to `i32` keeps the numbers below `2 ^ 31`. -/
theorem toInt_toInt32 {a : UInt32} (h : a.toNat < 2 ^ 31) : a.toInt32.toInt = a.toNat := by
  rw [← UInt32.ofNat_toNat (x := a), UInt32.toInt32_ofNat',
    Int32.toInt_ofNat_of_lt (by simpa using h)]
  simp

end Pwatch
