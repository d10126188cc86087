import Pwatch.Memory.Response

/-!
# Hex bytes

`decode_hex` against the notation it reads.  `Decodes` says which bytes a list of digits
stands for, by index; the nibble arithmetic is exact on hex digits, so `decode_hex` returns
those bytes and fails on everything else.  Whatever whitespace and letter case a client
chooses, the hex rendering of a list of bytes is read back.
-/

namespace Pwatch.Memory

open Text

/-! ## Nibbles -/

/-- The value of a hex digit. -/
def digit (b : UInt8) : Nat := (toDigit 16 (Char.ofNat b.toNat)).getD 0

/-- What holds of the 22 hex digits holds of every byte that is one. -/
theorem forall_hexdigit {p : UInt8 → Prop}
    (h : ∀ n ∈ List.range' 48 10 ++ List.range' 65 6 ++ List.range' 97 6, p (UInt8.ofNat n))
    {b : UInt8} (hb : isAsciiHexdigit b.toNat = true) : p b := by
  have hmem : b.toNat ∈ List.range' 48 10 ++ List.range' 65 6 ++ List.range' 97 6 := by
    simp only [isAsciiHexdigit, Bool.or_eq_true, Bool.and_eq_true, decide_eq_true_eq] at hb
    simp only [List.mem_append, List.mem_range'_1]
    omega
  simpa using h _ hmem

/-- The nibble of a digit is its value. -/
theorem toNat_nibble {b : UInt8} (h : isAsciiHexdigit b.toNat = true) :
    (nibble b).toNat = digit b :=
  forall_hexdigit (p := fun b ↦ (nibble b).toNat = digit b) (by decide) h

theorem digit_lt {b : UInt8} (h : isAsciiHexdigit b.toNat = true) : digit b < 16 :=
  forall_hexdigit (p := fun b ↦ digit b < 16) (by decide) h

/-- Neither subtraction of `nibble` goes below zero. -/
theorem nibble_no_underflow {b : UInt8} (h : isAsciiHexdigit b.toNat = true) :
    (48 ≤ b ∧ b ≤ 57) ∨ 97 ≤ (if 65 ≤ b ∧ b ≤ 90 then b + 32 else b) :=
  forall_hexdigit
    (p := fun b ↦ (48 ≤ b ∧ b ≤ 57) ∨ 97 ≤ (if 65 ≤ b ∧ b ≤ 90 then b + 32 else b)) (by decide) h

/-- The high nibble keeps all its bits. -/
theorem toNat_nibble_shiftLeft {b : UInt8} (h : isAsciiHexdigit b.toNat = true) :
    (nibble b <<< 4).toNat = 16 * digit b := by
  have hlt := digit_lt h
  have hshift : 2 ^ ((4 : UInt8).toNat % 8) = 16 := rfl
  rw [UInt8.toNat_shiftLeft, toNat_nibble h, Nat.shiftLeft_eq, hshift, Nat.mul_comm]
  exact Nat.mod_eq_of_lt (by omega)

/-- The byte `decode_hex` makes of a pair of digits. -/
def pairByte (pair : List UInt8) : UInt8 :=
  nibble (pair.getD 0 0) <<< 4 ||| nibble (pair.getD 1 0)

theorem toNat_pairByte {pair : List UInt8} (hhigh : isAsciiHexdigit (pair.getD 0 0).toNat = true)
    (hlow : isAsciiHexdigit (pair.getD 1 0).toNat = true) :
    (pairByte pair).toNat = 16 * digit (pair.getD 0 0) + digit (pair.getD 1 0) := by
  rw [pairByte, UInt8.toNat_or, toNat_nibble_shiftLeft hhigh, toNat_nibble hlow]
  exact (Nat.two_pow_add_eq_or_of_lt (i := 4) (digit_lt hlow) _).symm

/-! ## What `decode_hex` accepts -/

/-- The digits of a text: its bytes without the whitespace. -/
def hexDigits (text : Str) : List UInt8 := (bytes text).filter fun b ↦ !isAsciiWhitespace b

/-- The bytes that digits stand for. -/
structure Decodes (digits data : List UInt8) : Prop where
  length_pos : 1 ≤ data.length
  length_le : data.length ≤ 4096
  length_digits : digits.length = 2 * data.length
  hex : ∀ b ∈ digits, isAsciiHexdigit b.toNat = true
  value : ∀ i, ∀ hi : i < data.length,
    data[i].toNat = 16 * digit (digits.getD (2 * i) 0) + digit (digits.getD (2 * i + 1) 0)

/-- The checks of `decode_hex`, and the bytes it returns. -/
theorem decodeHex_eq_ok {text : Str} {data : List UInt8} :
    decodeHex text = .ok data ↔ hexDigits text ≠ [] ∧ (hexDigits text).length ≤ 2 * 4096 ∧
      (hexDigits text).length % 2 = 0 ∧ (∀ b ∈ hexDigits text, isAsciiHexdigit b.toNat = true) ∧
        (chunks 2 (hexDigits text)).map pairByte = data := by
  unfold decodeHex
  dsimp only
  rw [← hexDigits]
  split <;> rename_i hcheck
  · refine iff_of_false nofun ?_
    rintro ⟨hne, hle, heven, hhex, -⟩
    rcases hcheck with hnil | hlong | hodd | hno
    · exact hne hnil
    · exact absurd hle (Nat.not_le.mpr hlong)
    · exact hodd heven
    · exact hno (List.all_eq_true.mpr hhex)
  · rw [not_or, not_or, not_or, not_not, not_not, Nat.not_lt] at hcheck
    obtain ⟨hne, hle, heven, hhex⟩ := hcheck
    rw [Except.ok.injEq]
    exact ⟨fun h ↦ ⟨hne, hle, heven, List.all_eq_true.mp hhex, h⟩, fun h ↦ h.2.2.2.2⟩

section

variable {digits : List UInt8} {n i : Nat}

theorem length_map_chunks (hlen : digits.length = 2 * n) :
    ((chunks 2 digits).map pairByte).length = n := by
  rw [List.length_map, length_chunks, hlen]
  omega

theorem isAsciiHexdigit_getD (hhex : ∀ b ∈ digits, isAsciiHexdigit b.toNat = true)
    (hi : i < digits.length) : isAsciiHexdigit (digits.getD i 0).toNat = true := by
  rw [List.getD_eq_getElem?_getD, List.getElem?_eq_getElem hi]
  exact hhex _ (List.getElem_mem hi)

/-- The byte at an index. -/
theorem toNat_getElem_map_chunks (hlen : digits.length = 2 * n)
    (hhex : ∀ b ∈ digits, isAsciiHexdigit b.toNat = true)
    (hi : i < ((chunks 2 digits).map pairByte).length) :
    ((chunks 2 digits).map pairByte)[i].toNat =
      16 * digit (digits.getD (2 * i) 0) + digit (digits.getD (2 * i + 1) 0) := by
  have hin : i < n := length_map_chunks hlen ▸ hi
  have hget : ∀ j, j < 2 → ((digits.drop (i * 2)).take 2).getD j 0 = digits.getD (2 * i + j) 0 := by
    intro j hj
    rw [List.getD_eq_getElem?_getD, List.getElem?_take_of_lt hj, List.getElem?_drop,
      List.getD_eq_getElem?_getD, Nat.mul_comm i 2]
  rw [List.getElem_map, getElem_chunks, toNat_pairByte, hget 0 (by omega), hget 1 (by omega)]
  · rfl
  · rw [hget 0 (by omega)]
    exact isAsciiHexdigit_getD hhex (by omega)
  · rw [hget 1 (by omega)]
    exact isAsciiHexdigit_getD hhex (by omega)

end

/-- **What `decode_hex` accepts.** -/
theorem decodeHex_eq_ok_iff {text : Str} {data : List UInt8} :
    decodeHex text = .ok data ↔ Decodes (hexDigits text) data := by
  rw [decodeHex_eq_ok]
  constructor
  · rintro ⟨hne, hle, heven, hhex, rfl⟩
    have hpos := List.length_pos_of_ne_nil hne
    have hlen : (hexDigits text).length = 2 * ((hexDigits text).length / 2) := by omega
    have hcount := length_map_chunks hlen
    constructor
    case length_pos => omega
    case length_le => omega
    case length_digits => rw [hcount]; exact hlen
    case hex => exact hhex
    case value => exact fun i hi ↦ toNat_getElem_map_chunks hlen hhex hi
  · intro h
    have hpos := h.length_pos
    have hle := h.length_le
    have hlen := h.length_digits
    refine ⟨List.ne_nil_of_length_pos (by omega), by omega, by omega, h.hex, ?_⟩
    refine List.ext_getElem (length_map_chunks hlen) fun i hi hi' ↦ ?_
    rw [← UInt8.toNat_inj, toNat_getElem_map_chunks hlen h.hex, h.value i hi']

/-! ## Renderings -/

/-- `char::is_ascii_whitespace`. -/
def isAsciiBlank (c : Char) : Bool :=
  c.toNat == 0x20 || c.toNat == 0x09 || c.toNat == 0x0A || c.toNat == 0x0C || c.toNat == 0x0D

/-- The text is a hex rendering of the bytes, each digit in either letter case, with ASCII
whitespace anywhere. -/
def Renders (text : Str) (data : List UInt8) : Prop :=
  toAsciiLowercase (text.filter fun c ↦ !isAsciiBlank c) = data.flatMap byteText

theorem isAsciiWhitespace_eq (b : UInt8) :
    isAsciiWhitespace b = (b.toNat == 0x20 || b.toNat == 0x09 || b.toNat == 0x0A ||
      b.toNat == 0x0C || b.toNat == 0x0D) := by
  rw [Bool.eq_iff_iff]
  simp [isAsciiWhitespace, ← UInt8.toNat_inj]

/-- A character is kept or dropped with all its bytes. -/
theorem filter_utf8EncodeChar (c : Char) :
    (String.utf8EncodeChar c).filter (fun b ↦ !isAsciiWhitespace b) =
      if isAsciiBlank c then [] else String.utf8EncodeChar c := by
  by_cases h : c.toNat < 128
  · have hnat : (UInt8.ofNat c.toNat).toNat = c.toNat :=
      UInt8.toNat_ofNat_of_lt' (Nat.lt_trans h (by decide))
    have hblank : isAsciiWhitespace (UInt8.ofNat c.toNat) = isAsciiBlank c := by
      rw [isAsciiWhitespace_eq, hnat, isAsciiBlank]
    rw [utf8EncodeChar_of_lt h, List.filter_singleton, hblank]
    cases isAsciiBlank c <;> rfl
  · have hblank : isAsciiBlank c = false := by
      simp only [isAsciiBlank, Bool.or_eq_false_iff, beq_eq_false_iff_ne]
      omega
    rw [hblank, List.filter_eq_self.mpr]
    · rfl
    · intro b hb
      have hge := le_of_mem_utf8EncodeChar (Nat.not_lt.mp h) hb
      simp only [isAsciiWhitespace_eq, Bool.not_eq_true', Bool.or_eq_false_iff,
        beq_eq_false_iff_ne]
      omega

/-- Whitespace goes whether it is taken from the bytes or from the characters. -/
theorem hexDigits_eq (text : Str) :
    hexDigits text = bytes (text.filter fun c ↦ !isAsciiBlank c) := by
  induction text with
  | nil => rfl
  | cons c text ih =>
      have hcons : hexDigits (c :: text) =
          (if isAsciiBlank c then [] else String.utf8EncodeChar c) ++ hexDigits text := by
        rw [hexDigits, bytes, List.flatMap_cons, List.filter_append, filter_utf8EncodeChar]
        rfl
      rw [hcons, ih, List.filter_cons]
      cases isAsciiBlank c with
      | true => rfl
      | false => rfl

/-- A byte is printed as its high and its low digit. -/
theorem byteText_eq (b : UInt8) :
    byteText b = [Nat.digitChar (b.toNat / 16), Nat.digitChar (b.toNat % 16)] := by
  have hlt := b.toNat_lt
  rw [byteText, lowerHex, Nat.toDigits_eq_if (by omega)]
  split
  · rename_i hsmall
    rw [Nat.div_eq_of_lt hsmall, Nat.mod_eq_of_lt hsmall]
    rfl
  · rename_i hlarge
    rw [Nat.toDigits_of_lt_base (by omega)]
    rfl

/-- A character that is a digit in either case. -/
theorem digit_of_toLower {c : Char} {k : Nat} (hk : k < 16) (h : c.toLower = Nat.digitChar k) :
    isAsciiHexdigit c.toNat = true ∧ digit (UInt8.ofNat c.toNat) = k := by
  have hdigit : toDigit 16 c = some k := by
    rw [← toDigit_toLower, h, toDigit_digitChar (by omega) hk]
  have hhex : isAsciiHexdigit c.toNat = true := by rw [← isSome_toDigit_sixteen, hdigit]; rfl
  have hnat : (UInt8.ofNat c.toNat).toNat = c.toNat :=
    UInt8.toNat_ofNat_of_lt' (Nat.lt_trans (lt_of_isAsciiHexdigit hhex) (by decide))
  refine ⟨hhex, ?_⟩
  rw [digit, hnat, Char.ofNat_toNat, hdigit]
  rfl

/-- The digits of a rendering, decoded pair by pair. -/
theorem map_chunks_of_renders {chars : Str} {data : List UInt8}
    (h : toAsciiLowercase chars = data.flatMap byteText) :
    (∀ c ∈ chars, isAsciiHexdigit c.toNat = true) ∧ chars.length = 2 * data.length ∧
      (chunks 2 (chars.map fun c ↦ UInt8.ofNat c.toNat)).map pairByte = data := by
  induction data generalizing chars with
  | nil =>
      obtain rfl : chars = [] := List.map_eq_nil_iff.mp h
      exact ⟨by simp, rfl, by rw [List.map_nil, chunks_nil (by omega), List.map_nil]⟩
  | cons b data ih =>
      rw [List.flatMap_cons, byteText_eq] at h
      obtain ⟨c, chars, rfl, hhigh, h⟩ := List.map_eq_cons_iff.mp h
      obtain ⟨d, chars, rfl, hlow, h⟩ := List.map_eq_cons_iff.mp h
      have hlt := b.toNat_lt
      obtain ⟨hhex, hlen, hdata⟩ := ih h
      obtain ⟨hc, hcval⟩ := digit_of_toLower (by omega) hhigh
      obtain ⟨hd, hdval⟩ := digit_of_toLower (by omega) hlow
      refine ⟨?_, ?_, ?_⟩
      · simpa [hc, hd] using hhex
      · rw [List.length_cons, List.length_cons, hlen, List.length_cons]
        omega
      · have hnat : ∀ {e : Char}, isAsciiHexdigit e.toNat = true →
            isAsciiHexdigit (UInt8.ofNat e.toNat).toNat = true := fun he ↦ by
          rwa [UInt8.toNat_ofNat_of_lt' (Nat.lt_trans (lt_of_isAsciiHexdigit he) (by decide))]
        let pair := [UInt8.ofNat c.toNat, UInt8.ofNat d.toNat]
        have hpair : (pairByte pair).toNat = 16 * digit (pair.getD 0 0) + digit (pair.getD 1 0) :=
          toNat_pairByte (hnat hc) (hnat hd)
        have hbyte : pairByte pair = b := by
          rw [← UInt8.toNat_inj, hpair, ← Nat.div_add_mod b.toNat 16, ← hcval, ← hdval]
          rfl
        have hpieces : chunks 2 (pair ++ chars.map fun c ↦ UInt8.ofNat c.toNat) =
            pair :: chunks 2 (chars.map fun c ↦ UInt8.ofNat c.toNat) :=
          chunks_append Nat.two_pos (show pair.length = 2 from rfl) _
        calc (chunks 2 ((c :: d :: chars).map fun c ↦ UInt8.ofNat c.toNat)).map pairByte
            = pairByte pair :: (chunks 2 (chars.map fun c ↦ UInt8.ofNat c.toNat)).map pairByte :=
              congrArg (List.map pairByte) hpieces
          _ = b :: data := by rw [hbyte, hdata]

/-- **A rendering is read back.** -/
theorem decodeHex_of_renders {text : Str} {data : List UInt8} (hpos : 1 ≤ data.length)
    (hle : data.length ≤ 4096) (h : Renders text data) : decodeHex text = .ok data := by
  obtain ⟨hhex, hlen, hdata⟩ := map_chunks_of_renders h
  have hdigits : hexDigits text =
      (text.filter fun c ↦ !isAsciiBlank c).map fun c ↦ UInt8.ofNat c.toNat := by
    rw [hexDigits_eq, bytes_of_ascii fun c hc ↦ lt_of_isAsciiHexdigit (hhex c hc)]
  have hcount : (hexDigits text).length = 2 * data.length := by
    rw [hdigits, List.length_map, hlen]
  refine decodeHex_eq_ok.mpr ⟨List.ne_nil_of_length_pos (by omega), by omega, by omega, ?_, ?_⟩
  · rw [hdigits, List.forall_mem_map]
    intro c hc
    rw [UInt8.toNat_ofNat_of_lt' (Nat.lt_trans (lt_of_isAsciiHexdigit (hhex c hc)) (by decide))]
    exact hhex c hc
  · rw [hdigits, hdata]

/-- Some bytes are returned when the digits make up pairs, of the number that is allowed. -/
theorem exists_decodeHex_eq_ok_iff {text : Str} :
    (∃ data, decodeHex text = .ok data) ↔ ∃ n, 1 ≤ n ∧ n ≤ 4096 ∧
      (hexDigits text).length = 2 * n ∧ ∀ b ∈ hexDigits text, isAsciiHexdigit b.toNat = true := by
  constructor
  · rintro ⟨data, hdata⟩
    have h := decodeHex_eq_ok_iff.mp hdata
    exact ⟨data.length, h.length_pos, h.length_le, h.length_digits, h.hex⟩
  · rintro ⟨n, hpos, hle, hlen, hhex⟩
    exact ⟨_, decodeHex_eq_ok.mpr
      ⟨List.ne_nil_of_length_pos (by omega), by omega, by omega, hhex, rfl⟩⟩

/-- **Hex bytes.**  `decode_hex` accepts the texts whose bytes without the whitespace are up
to 4096 pairs of hex digits, and no others; it returns the bytes these digits stand for, its
nibble arithmetic being exact; and it reads every rendering of such bytes back. -/
theorem decodeHex_exact :
    (∀ text, (∃ data, decodeHex text = .ok data) ↔ ∃ n, 1 ≤ n ∧ n ≤ 4096 ∧
      (hexDigits text).length = 2 * n ∧ ∀ b ∈ hexDigits text, isAsciiHexdigit b.toNat = true) ∧
    (∀ text data, decodeHex text = .ok data ↔ Decodes (hexDigits text) data) ∧
    (∀ b, isAsciiHexdigit b.toNat = true →
      ((48 ≤ b ∧ b ≤ 57) ∨ 97 ≤ (if 65 ≤ b ∧ b ≤ 90 then b + 32 else b)) ∧
        (nibble b).toNat = digit b ∧ digit b < 16 ∧ (nibble b <<< 4).toNat = 16 * digit b) ∧
    ∀ text data, 1 ≤ data.length → data.length ≤ 4096 → Renders text data →
      decodeHex text = .ok data :=
  ⟨fun _ ↦ exists_decodeHex_eq_ok_iff, fun _ _ ↦ decodeHex_eq_ok_iff,
    fun _ h ↦ ⟨nibble_no_underflow h, toNat_nibble h, digit_lt h, toNat_nibble_shiftLeft h⟩,
    fun _ _ hpos hle h ↦ decodeHex_of_renders hpos hle h⟩

end Pwatch.Memory
