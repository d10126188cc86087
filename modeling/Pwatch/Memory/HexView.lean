import Pwatch.Memory.Hex

/-!
# The rows of a read

`format_read` loses nothing: its rows show the data piece by piece, under the addresses the
pieces have, and `decode_hex` reads the column `hex` back.
-/

namespace Pwatch.Memory

open Text

/-! ## Address texts -/

/-- A printed address denotes itself. -/
theorem denotes_addrText (addr : UInt64) : Denotes (addrText addr) addr := by
  refine ⟨[], "0x".toList, lowerHex16 addr.toNat, [], ?_, by simp [Blank], by simp [Blank],
    .inr (.inl rfl), ?_, ?_, isNumeral_lowerHex16 _, ofDigits_lowerHex16 _⟩
  · rw [addrText, List.nil_append, List.append_nil]
  · rw [length_lowerHex16 addr.toNat_lt]
    omega
  · rw [length_lowerHex16 addr.toNat_lt]

/-- The printed address at a distance. -/
theorem denotes_addrText_add {addr : UInt64} {k : Nat} (h : addr.toNat + k < 2 ^ 64) :
    ∃ value, Denotes (addrText (addr + UInt64.ofNat k)) value ∧ value.toNat = addr.toNat + k := by
  refine ⟨addr + UInt64.ofNat k, denotes_addrText _, ?_⟩
  have hk : (UInt64.ofNat k).toNat = k :=
    UInt64.toNat_ofNat_of_lt' (Nat.lt_of_le_of_lt (Nat.le_add_left _ _) h)
  rw [UInt64.toNat_add, hk, Nat.mod_eq_of_lt h]

/-! ## Bytes -/

theorem isAsciiBlank_digitChar {k : Nat} (hk : k < 16) :
    isAsciiBlank (Nat.digitChar k) = false ∧ (Nat.digitChar k).toLower = Nat.digitChar k := by
  revert k
  decide

/-- The column `hex` of some bytes is a rendering of them. -/
theorem renders_intercalate (data : List UInt8) :
    Renders ([' '].intercalate (data.map byteText)) data := by
  have hbyte : ∀ b, (byteText b).filter (fun c ↦ !isAsciiBlank c) = byteText b ∧
      toAsciiLowercase (byteText b) = byteText b := fun b ↦ by
    have hlt := b.toNat_lt
    obtain ⟨hhigh, hhigh'⟩ := isAsciiBlank_digitChar (k := b.toNat / 16) (by omega)
    obtain ⟨hlow, hlow'⟩ := isAsciiBlank_digitChar (k := b.toNat % 16) (by omega)
    rw [byteText_eq]
    simp [toAsciiLowercase, hhigh, hhigh', hlow, hlow']
  have happend : ∀ s t, toAsciiLowercase (s ++ t) = toAsciiLowercase s ++ toAsciiLowercase t :=
    fun s t ↦ List.map_append
  rw [Renders]
  induction data with
  | nil => rfl
  | cons b data ih =>
      cases data with
      | nil => simp [List.intercalate, hbyte b]
      | cons b' data =>
          have hcons : [' '].intercalate ((b :: b' :: data).map byteText) =
              byteText b ++ ' ' :: [' '].intercalate ((b' :: data).map byteText) := by
            simp [List.intercalate]
          have hblank : isAsciiBlank ' ' = true := rfl
          rw [hcons, List.filter_append, List.filter_cons_of_neg (by simp [hblank]), happend, ih,
            (hbyte b).1, (hbyte b).2, List.flatMap_cons (x := b)]

/-- The character shown for a byte. -/
theorem asciiChar_eq (b : UInt8) :
    asciiChar b = if 0x20 ≤ b.toNat ∧ b.toNat ≤ 0x7e then Char.ofNat b.toNat else '.' := rfl

/-! ## Rows -/

/-- The bytes of the row with the index `i`. -/
def rowBytes (data : List UInt8) (i : Nat) : List UInt8 := (data.drop (16 * i)).take 16

/-- What the row with the index `i` shows.  The row behind it, or the address of the next
page, goes on where it ends. -/
structure Shows (addr : UInt64) (data : List UInt8) (view : ReadResponse) (i : Nat)
    (row : MemoryRow) : Prop where
  addr_denotes : ∃ value, Denotes row.addr value ∧ value.toNat = addr.toNat + 16 * i
  full : i + 1 < view.rows.length → (rowBytes data i).length = 16
  decodes : decodeHex row.hex = .ok (rowBytes data i)
  length_ascii : row.ascii.length = (rowBytes data i).length
  ascii : ∀ (j : Nat) (b : UInt8), (rowBytes data i)[j]? = some b → row.ascii[j]? =
    some (if 0x20 ≤ b.toNat ∧ b.toNat ≤ 0x7e then Char.ofNat b.toNat else '.')
  next_row : ∀ next, view.rows[i + 1]? = some next → ∃ value, Denotes next.addr value ∧
    value.toNat = addr.toNat + 16 * i + (rowBytes data i).length
  next_page : view.rows[i + 1]? = none → ∀ text, view.nextAddr = some text →
    ∃ value, Denotes text value ∧ value.toNat = addr.toNat + 16 * i + (rowBytes data i).length
  no_page : view.rows[i + 1]? = none → view.nextAddr = none →
    addr.toNat + 16 * i + (rowBytes data i).length = 2 ^ 64

section

variable {pid : UInt32} {addr : UInt64} {data : List UInt8} {i : Nat} {row : MemoryRow}

theorem length_rows : (formatRead pid addr data).rows.length = (data.length + 15) / 16 := by
  rw [formatRead, List.length_mapIdx, length_chunks]
  rfl

theorem rows_getElem? (h : (formatRead pid addr data).rows[i]? = some row) :
    16 * i < data.length ∧ row = memoryRow addr i (rowBytes data i) := by
  rw [formatRead, List.getElem?_mapIdx, Option.map_eq_some_iff] at h
  obtain ⟨piece, hpiece, rfl⟩ := h
  obtain ⟨hi, rfl⟩ := List.getElem?_eq_some_iff.mp hpiece
  have hlt := mul_lt_of_lt_length_chunks (by omega) hi
  rw [getElem_chunks, rowBytes, Nat.mul_comm 16 i]
  exact ⟨hlt, rfl⟩

theorem length_rowBytes : (rowBytes data i).length = min 16 (data.length - 16 * i) := by
  rw [rowBytes, List.length_take, List.length_drop]

/-- The address of the next page. -/
theorem nextAddr_eq_some (hfits : addr.toNat + data.length < 2 ^ 64) :
    (formatRead pid addr data).nextAddr =
      some (addrText (addr + UInt64.ofNat data.length)) := by
  have hlen : (UInt64.ofNat data.length).toNat = data.length :=
    UInt64.toNat_ofNat_of_lt' (Nat.lt_of_le_of_lt (Nat.le_add_left _ _) hfits)
  rw [formatRead, checkedAdd, hlen, if_pos hfits, Option.map_some]

theorem nextAddr_eq_none (hle : data.length ≤ 4096) :
    (formatRead pid addr data).nextAddr = none ↔ 2 ^ 64 ≤ addr.toNat + data.length := by
  have hlen : (UInt64.ofNat data.length).toNat = data.length :=
    UInt64.toNat_ofNat_of_lt' (Nat.lt_of_le_of_lt hle (by decide))
  rw [formatRead, Option.map_eq_none_iff, checkedAdd_eq_none, hlen]

/-- Every row shows its piece. -/
theorem shows_of_getElem? (hle : data.length ≤ 4096) (hfits : addr.toNat + data.length ≤ 2 ^ 64)
    (h : (formatRead pid addr data).rows[i]? = some row) :
    Shows addr data (formatRead pid addr data) i row := by
  obtain ⟨hi, rfl⟩ := rows_getElem? h
  have hlen : (rowBytes data i).length = min 16 (data.length - 16 * i) := length_rowBytes
  have hlast : (formatRead pid addr data).rows[i + 1]? = none →
      16 * i + (rowBytes data i).length = data.length := fun hnone ↦ by
    have hrows := List.getElem?_eq_none_iff.mp hnone
    rw [length_rows] at hrows
    omega
  constructor
  case addr_denotes =>
    rw [Nat.mul_comm 16 i]
    exact denotes_addrText_add (by omega)
  case full =>
    intro hrows
    rw [length_rows] at hrows
    omega
  case decodes => exact decodeHex_of_renders (by omega) (by omega) (renders_intercalate _)
  case length_ascii => rw [memoryRow, List.length_map]
  case ascii =>
    intro j b hb
    rw [memoryRow, List.getElem?_map, hb, Option.map_some, asciiChar_eq]
  case next_row =>
    intro next hnext
    obtain ⟨hi', rfl⟩ := rows_getElem? hnext
    have hlt : addr.toNat + (i + 1) * 16 < 2 ^ 64 := by omega
    obtain ⟨value, hdenotes, hvalue⟩ := denotes_addrText_add hlt
    exact ⟨value, hdenotes, by omega⟩
  case next_page =>
    intro hnone text htext
    have hend := hlast hnone
    have hlt : addr.toNat + data.length < 2 ^ 64 := by
      by_contra hge
      rw [(nextAddr_eq_none hle).mpr (by omega)] at htext
      cases htext
    rw [nextAddr_eq_some hlt] at htext
    obtain rfl := Option.some.inj htext
    obtain ⟨value, hdenotes, hvalue⟩ := denotes_addrText_add hlt
    exact ⟨value, hdenotes, by omega⟩
  case no_page =>
    intro hnone htext
    have hend := hlast hnone
    have hge := (nextAddr_eq_none hle).mp htext
    omega

end

/-- **The hex view of a read.**  Its rows show the data, sixteen bytes each but the last, and
each goes on where the one before it ends; what they show decodes to the data. -/
theorem formatRead_lossless {pid : UInt32} {addr : UInt64} {data : List UInt8}
    (hle : data.length ≤ 4096) (hfits : addr.toNat + data.length - 1 < 2 ^ 64) :
    (formatRead pid addr data).size = data.length ∧
    (formatRead pid addr data).rows.length = (data.length + 15) / 16 ∧
    (∀ i row, (formatRead pid addr data).rows[i]? = some row →
      Shows addr data (formatRead pid addr data) i row) ∧
    ∃ pieces : List (List UInt8),
      (formatRead pid addr data).rows.map (fun row ↦ decodeHex row.hex) = pieces.map .ok ∧
        pieces.flatten = data := by
  have hshows : ∀ i row, (formatRead pid addr data).rows[i]? = some row →
      Shows addr data (formatRead pid addr data) i row := fun i row ↦
    shows_of_getElem? hle (by omega)
  refine ⟨rfl, length_rows, hshows, chunks 16 data, ?_, flatten_chunks (by omega) data⟩
  refine List.ext_getElem ?_ fun i hi hi' ↦ ?_
  · rw [List.length_map, List.length_map, length_rows, length_chunks]
    rfl
  · have hlt : i < (formatRead pid addr data).rows.length := by
      rwa [List.length_map] at hi
    have hrow := List.getElem?_eq_getElem hlt
    rw [List.getElem_map, List.getElem_map, (hshows i _ hrow).decodes, getElem_chunks, rowBytes,
      Nat.mul_comm 16 i]

/-- Two rows, up to the last byte of the address space. -/
theorem formatRead_lossless_top :
    let response := formatRead 1 0xffffffffffffffef (.replicate 16 0 ++ [65])
    response.rows.length = 2 ∧ ∃ pieces : List (List UInt8),
      response.rows.map (fun row ↦ decodeHex row.hex) = pieces.map .ok ∧
        pieces.flatten = .replicate 16 0 ++ [65] := by
  have hfits : (0xffffffffffffffef : UInt64).toNat +
      (.replicate 16 0 ++ [(65 : UInt8)]).length - 1 < 2 ^ 64 := by decide
  obtain ⟨-, hrows, -, hpieces⟩ := formatRead_lossless (by simp) hfits
  exact ⟨hrows, hpieces⟩

end Pwatch.Memory
