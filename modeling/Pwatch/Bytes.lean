import Mathlib.Data.UInt

/-!
# Numbers as bytes

The bytes of a number in either order, for `from_ne_bytes`.  A number that fits in `n`
bytes is read back from them in the order they were written in.
-/

namespace Pwatch

/-- The order of the bytes of a number. -/
inductive Endian
  | little
  | big
deriving DecidableEq, Repr

namespace Bytes

/-- The `n` low bytes of a number, the lowest one first. -/
def toLe : (n v : Nat) → List UInt8
  | 0, _ => []
  | n + 1, v => UInt8.ofNat v :: toLe n (v / 256)

/-- The number with these bytes, the lowest one first. -/
def ofLe : List UInt8 → Nat
  | [] => 0
  | b :: bs => b.toNat + 256 * ofLe bs

@[simp] theorem length_toLe (n v : Nat) : (toLe n v).length = n := by
  induction n generalizing v with
  | zero => rfl
  | succ n ih => rw [toLe, List.length_cons, ih]

theorem ofLe_toLe {n v : Nat} (h : v < 256 ^ n) : ofLe (toLe n v) = v := by
  induction n generalizing v with
  | zero =>
      have hv : v = 0 := Nat.lt_one_iff.mp h
      rw [hv]
      rfl
  | succ n ih =>
      have hq : v / 256 < 256 ^ n := Nat.div_lt_of_lt_mul (by rwa [Nat.pow_succ'] at h)
      rw [toLe, ofLe, ih hq, UInt8.toNat_ofNat']
      exact Nat.mod_add_div v 256

end Bytes

namespace Endian

variable (endian : Endian)

/-- `to_ne_bytes` of a number of `n` bytes. -/
def toBytes (n v : Nat) : List UInt8 :=
  match endian with
  | .little => Bytes.toLe n v
  | .big => (Bytes.toLe n v).reverse

/-- `from_ne_bytes`. -/
def ofBytes (bytes : List UInt8) : Nat :=
  match endian with
  | .little => Bytes.ofLe bytes
  | .big => Bytes.ofLe bytes.reverse

@[simp] theorem length_toBytes (n v : Nat) : (endian.toBytes n v).length = n := by
  cases endian <;> simp [toBytes]

/-- **A number is read back from its bytes.** -/
theorem ofBytes_toBytes {n v : Nat} (h : v < 256 ^ n) :
    endian.ofBytes (endian.toBytes n v) = v := by
  cases endian with
  | little => exact Bytes.ofLe_toLe h
  | big =>
      rw [ofBytes, toBytes, List.reverse_reverse]
      exact Bytes.ofLe_toLe h

end Endian

end Pwatch
