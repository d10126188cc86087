import Mathlib.Data.Nat.ModEq
import Mathlib.Data.Vector.Basic

/-!
# Rings

A ring is an array whose cells are addressed by any number, modulo its size.  A writer
and a reader that count what they have written and read in all can share one: a sequence
no longer than the ring stands in it from the position where it was written
(`Ring.holds_write`), and it stays there while the writer is at most a whole ring ahead
(`Ring.Holds.write`).
-/

universe u

namespace Pwatch

/-- An array that goes round. -/
structure Ring (α : Type u) (size : Nat) where
  cells : Vector α size
  size_pos : 0 < size

namespace Ring

variable {α : Type u} {size : Nat} (ring : Ring α size) {base i : Nat} {x : α} {xs ys : List α}

/-- The cell at a position. -/
def get (i : Nat) : α :=
  have hlt : i % size < size := Nat.mod_lt i ring.size_pos
  ring.cells[i % size]

/-- The ring with another cell at a position. -/
def set (i : Nat) (x : α) : Ring α size :=
  { ring with cells := ring.cells.set (i % size) x (Nat.mod_lt i ring.size_pos) }

/-- Write a sequence from a position on. -/
def write (ring : Ring α size) : Nat → List α → Ring α size
  | _, [] => ring
  | base, x :: xs => (ring.set base x).write (base + 1) xs

/-- The cells from a position on are the sequence. -/
def Holds : Nat → List α → Prop
  | _, [] => True
  | base, x :: xs => ring.get base = x ∧ Holds (base + 1) xs

variable {ring}

@[simp] theorem get_set_self : (ring.set i x).get i = x := by
  simp [get, set]

/-- Positions less than a whole ring apart are different cells. -/
theorem get_set_of_lt (hlo : i < base) (hhi : base < i + size) :
    (ring.set base x).get i = ring.get i := by
  have hne : base % size ≠ i % size := by
    intro heq
    have hdvd : size ∣ base - i := (Nat.modEq_iff_dvd' hlo.le).mp heq.symm
    have hle : size ≤ base - i := Nat.le_of_dvd (by omega) hdvd
    omega
  simp [get, set, Vector.getElem_set_ne, hne]

/-- Writing changes no cell that is less than a whole ring behind. -/
theorem get_write (hlo : i < base) (hhi : base + xs.length ≤ i + size) :
    (ring.write base xs).get i = ring.get i := by
  induction xs generalizing ring base with
  | nil => rfl
  | cons x xs ih =>
      rw [List.length_cons] at hhi
      rw [write, ih (by omega) (by omega), get_set_of_lt hlo (by omega)]

theorem holds_append :
    ring.Holds base (xs ++ ys) ↔ ring.Holds base xs ∧ ring.Holds (base + xs.length) ys := by
  induction xs generalizing base with
  | nil => simp [Holds]
  | cons x xs ih =>
      have hbase : base + (x :: xs).length = base + 1 + xs.length := by
        rw [List.length_cons]
        omega
      rw [List.cons_append, Holds, Holds, ih, hbase, and_assoc]

/-- What stands behind the writer stays while it is at most a whole ring ahead. -/
theorem Holds.write {tail : Nat} (h : ring.Holds tail ys) (hlo : tail + ys.length ≤ base)
    (hhi : base + xs.length ≤ tail + size) : (ring.write base xs).Holds tail ys := by
  induction ys generalizing tail with
  | nil => trivial
  | cons y ys ih =>
      rw [List.length_cons] at hlo
      have hget : (ring.write base xs).get tail = y := by
        rw [get_write (by omega) hhi]
        exact h.1
      exact ⟨hget, ih h.2 (by omega) (by omega)⟩

/-- **What was written stands in the ring**, when it is no longer than the ring. -/
theorem holds_write (ring : Ring α size) (base : Nat) (h : xs.length ≤ size) :
    (ring.write base xs).Holds base xs := by
  induction xs generalizing ring base with
  | nil => trivial
  | cons x xs ih =>
      rw [List.length_cons] at h
      have hfirst : (ring.set base x).Holds base [x] := ⟨get_set_self, trivial⟩
      have hkept : ((ring.set base x).write (base + 1) xs).Holds base [x] :=
        hfirst.write (le_refl _) (by omega)
      exact ⟨hkept.1, ih _ _ (by omega)⟩

end Ring

end Pwatch
