import Pwatch.Memory.Request

/-!
# Memory responses

`format_read`: the rows of the hex view.
-/

namespace Pwatch.Memory

open Text

/-- `MemoryRow`. -/
structure MemoryRow where
  addr : Str
  hex : Str
  ascii : Str
deriving DecidableEq, Repr, Inhabited

/-- `ReadResponse`. -/
structure ReadResponse where
  pid : UInt32
  addr : Str
  size : Nat
  nextAddr : Option Str
  data : List UInt8
  rows : List MemoryRow
deriving DecidableEq, Repr

/-- `WriteResponse`. -/
structure WriteResponse where
  pid : UInt32
  addr : Str
  written : Nat
deriving DecidableEq, Repr

/-- `format!("0x{addr:016x}")`. -/
def addrText (addr : UInt64) : Str := "0x".toList ++ lowerHex16 addr.toNat

/-- `format!("{b:02x}")`. -/
def byteText (b : UInt8) : Str := (lowerHex b.toNat).leftpad 2 '0'

/-- The character of a byte in the column `ascii`. -/
def asciiChar (b : UInt8) : Char :=
  if 0x20 ≤ b ∧ b ≤ 0x7e then Char.ofNat b.toNat else '.'

/-- The row `format_read` makes of the chunk with the index `i`. -/
def memoryRow (addr : UInt64) (i : Nat) (bytes : List UInt8) : MemoryRow where
  addr := addrText (addr + UInt64.ofNat (i * 16))
  hex := [' '].intercalate (bytes.map byteText)
  ascii := bytes.map asciiChar

/-- `format_read`. -/
def formatRead (pid : UInt32) (addr : UInt64) (data : List UInt8) : ReadResponse where
  pid
  addr := addrText addr
  size := data.length
  nextAddr := (checkedAdd addr (UInt64.ofNat data.length)).map addrText
  data
  rows := (chunks 16 data).mapIdx (memoryRow addr)

/-- The address of a row does not overflow when the bytes have addresses. -/
theorem formatRead_row {pid : UInt32} {addr : UInt64} {data : List UInt8} {i : Nat}
    (hfits : addr.toNat + data.length ≤ 2 ^ 64)
    (hi : i < (formatRead pid addr data).rows.length) :
    addr.toNat + i * 16 < 2 ^ 64 ∧
      (formatRead pid addr data).rows[i].addr =
        "0x".toList ++ lowerHex16 (addr.toNat + i * 16) := by
  have hi' : i < (chunks 16 data).length := by simpa [formatRead] using hi
  have hlt : addr.toNat + i * 16 < 2 ^ 64 :=
    Nat.lt_of_lt_of_le (Nat.add_lt_add_left (mul_lt_of_lt_length_chunks (by decide) hi') _) hfits
  have hofNat : (UInt64.ofNat (i * 16)).toNat = i * 16 := UInt64.toNat_ofNat_of_lt' (by
    exact Nat.lt_of_le_of_lt (Nat.le_add_left _ _) hlt)
  refine ⟨hlt, ?_⟩
  simp only [formatRead, List.getElem_mapIdx, memoryRow, addrText]
  rw [UInt64.toNat_add, hofNat, Nat.mod_eq_of_lt hlt]

end Pwatch.Memory
