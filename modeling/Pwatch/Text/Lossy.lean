import Pwatch.Text.Basic

/-!
# Bytes as text

`String::from_utf8_lossy`.  The bytes are read one at a time.  A sequence that breaks off gives
one replacement character, and the byte it breaks off at begins the next one.  Text that was
encoded comes back as it was (`fromUtf8Lossy_bytes`).
-/

namespace Pwatch.Text

/-! ## The bytes of a text -/

theorem bytes_eq_nil_iff {s : Str} : bytes s = [] ↔ s = [] := by
  rw [bytes, List.flatMap_eq_nil_iff]
  constructor
  · intro h
    exact List.eq_nil_iff_forall_not_mem.mpr fun c hc ↦ String.utf8EncodeChar_ne_nil (h c hc)
  · rintro rfl
    simp

/-- Only the null character has a zero in its bytes. -/
theorem zero_not_mem_bytes {s : Str} (h : '\x00' ∉ s) : 0 ∉ bytes s := by
  intro hmem
  obtain ⟨c, hc, hzero⟩ := List.mem_flatMap.mp hmem
  by_cases hascii : c.toNat < 128
  · rw [utf8EncodeChar_of_lt hascii, List.mem_singleton] at hzero
    have hnat := congrArg UInt8.toNat hzero
    rw [UInt8.toNat_ofNat', Nat.mod_eq_of_lt (by omega)] at hnat
    refine h ?_
    rwa [← Char.ofNat_toNat c, ← hnat] at hc
  · exact absurd (le_of_mem_utf8EncodeChar (Nat.not_lt.mp hascii) hzero) (by decide)

/-! ## Reading the bytes -/

/-- A sequence whose first bytes are read. -/
structure Pending where
  value : Nat
  /-- The range the next byte has to be in. -/
  lo : Nat
  hi : Nat
  /-- The bytes behind the next one. -/
  rest : Nat
deriving DecidableEq, Repr

/-- What a first byte gives at once, and what it begins. -/
def leadByte (b : UInt8) : Str × Option Pending :=
  let n := b.toNat
  if n < 0x80 then ([Char.ofNat n], none)
  else if 0xC2 ≤ n ∧ n ≤ 0xDF then ([], some ⟨n - 0xC0, 0x80, 0xBF, 0⟩)
  else if n = 0xE0 then ([], some ⟨0, 0xA0, 0xBF, 1⟩)
  else if n = 0xED then ([], some ⟨0xD, 0x80, 0x9F, 1⟩)
  else if 0xE1 ≤ n ∧ n ≤ 0xEF then ([], some ⟨n - 0xE0, 0x80, 0xBF, 1⟩)
  else if n = 0xF0 then ([], some ⟨0, 0x90, 0xBF, 2⟩)
  else if 0xF1 ≤ n ∧ n ≤ 0xF3 then ([], some ⟨n - 0xF0, 0x80, 0xBF, 2⟩)
  else if n = 0xF4 then ([], some ⟨4, 0x80, 0x8F, 2⟩)
  else (['\uFFFD'], none)

/-- What the next byte gives. -/
def nextByte (pending : Option Pending) (b : UInt8) : Str × Option Pending :=
  match pending with
  | none => leadByte b
  | some p =>
      if p.lo ≤ b.toNat ∧ b.toNat ≤ p.hi then
        let value := p.value * 64 + (b.toNat - 0x80)
        match p.rest with
        | 0 => ([Char.ofNat value], none)
        | rest + 1 => ([], some ⟨value, 0x80, 0xBF, rest⟩)
      else
        let (text, pending) := leadByte b
        ('\uFFFD' :: text, pending)

/-- The bytes behind what is read. -/
def lossyFrom : Option Pending → List UInt8 → Str
  | none, [] => []
  | some _, [] => ['\uFFFD']
  | pending, b :: bytes =>
      let (text, pending) := nextByte pending b
      text ++ lossyFrom pending bytes

/-- `String::from_utf8_lossy`. -/
def fromUtf8Lossy (bytes : List UInt8) : Str := lossyFrom none bytes

section

variable {b : UInt8} {bytes : List UInt8} {n : Nat}

theorem lossyFrom_lead {p : Pending} (h : leadByte b = ([], some p)) :
    lossyFrom none (b :: bytes) = lossyFrom (some p) bytes := by
  rw [lossyFrom, nextByte, h]
  rfl

/-- A byte that continues the sequence of a number. -/
theorem lossyFrom_next {lo hi rest : Nat} (hb : b.toNat = n % 64 + 0x80)
    (hlo : lo ≤ b.toNat) (hhi : b.toNat ≤ hi) :
    lossyFrom (some ⟨n / 64, lo, hi, rest + 1⟩) (b :: bytes) =
      lossyFrom (some ⟨n, 0x80, 0xBF, rest⟩) bytes := by
  have hvalue : n / 64 * 64 + (b.toNat - 0x80) = n := by omega
  simp only [lossyFrom, nextByte, hlo, hhi, and_self, if_true, hvalue, List.nil_append]

/-- The byte that completes the sequence of a number. -/
theorem lossyFrom_last {lo hi : Nat} (hb : b.toNat = n % 64 + 0x80) (hlo : lo ≤ b.toNat)
    (hhi : b.toNat ≤ hi) :
    lossyFrom (some ⟨n / 64, lo, hi, 0⟩) (b :: bytes) = Char.ofNat n :: lossyFrom none bytes := by
  have hvalue : n / 64 * 64 + (b.toNat - 0x80) = n := by omega
  simp only [lossyFrom, nextByte, hlo, hhi, and_self, if_true, hvalue, List.singleton_append]

theorem leadByte_two (hb : b.toNat = n / 64 % 32 + 0xC0) (hlo : 0x80 ≤ n) (hhi : n ≤ 0x7FF) :
    leadByte b = ([], some ⟨n / 64, 0x80, 0xBF, 0⟩) := by
  have hvalue : b.toNat - 0xC0 = n / 64 := by omega
  rw [leadByte, if_neg (by omega), if_pos (by omega), hvalue]

/-- The second byte of a sequence of three is neither that of a shorter one nor that of a
surrogate. -/
theorem leadByte_three (hb : b.toNat = n / 4096 % 16 + 0xE0) (hlo : 0x800 ≤ n) (hhi : n ≤ 0xFFFF)
    (hscalar : n < 0xD800 ∨ 0xDFFF < n) :
    ∃ lo hi, leadByte b = ([], some ⟨n / 64 / 64, lo, hi, 1⟩) ∧ lo ≤ n / 64 % 64 + 0x80 ∧
      n / 64 % 64 + 0x80 ≤ hi := by
  have hvalue : b.toNat = n / 64 / 64 + 0xE0 := by omega
  have hlead : 0xE0 ≤ b.toNat ∧ b.toNat ≤ 0xEF := by omega
  rw [leadByte, if_neg (by omega), if_neg (by omega)]
  split_ifs with h₁ h₂ h₃
  · exact ⟨_, _, by rw [show n / 64 / 64 = 0 by omega], by omega, by omega⟩
  · exact ⟨_, _, by rw [show n / 64 / 64 = 0xD by omega], by omega, by omega⟩
  · exact ⟨_, _, by rw [hvalue, Nat.add_sub_cancel], by omega, by omega⟩
  all_goals omega

theorem leadByte_four (hb : b.toNat = n / 262144 % 8 + 0xF0) (hlo : 0x10000 ≤ n)
    (hhi : n < 0x110000) :
    ∃ lo hi, leadByte b = ([], some ⟨n / 64 / 64 / 64, lo, hi, 2⟩) ∧
      lo ≤ n / 64 / 64 % 64 + 0x80 ∧ n / 64 / 64 % 64 + 0x80 ≤ hi := by
  have hvalue : b.toNat = n / 64 / 64 / 64 + 0xF0 := by omega
  have hlead : 0xF0 ≤ b.toNat ∧ b.toNat ≤ 0xF4 := by omega
  rw [leadByte, if_neg (by omega), if_neg (by omega), if_neg (by omega), if_neg (by omega),
    if_neg (by omega)]
  split_ifs with h₁ h₂ h₃
  · exact ⟨_, _, by rw [show n / 64 / 64 / 64 = 0 by omega], by omega, by omega⟩
  · exact ⟨_, _, by rw [hvalue, Nat.add_sub_cancel], by omega, by omega⟩
  · exact ⟨_, _, by rw [show n / 64 / 64 / 64 = 4 by omega], by omega, by omega⟩
  all_goals omega

end

/-- The bytes of a character are read as the character. -/
theorem lossyFrom_utf8EncodeChar (c : Char) (bytes : List UInt8) :
    lossyFrom none (String.utf8EncodeChar c ++ bytes) = c :: lossyFrom none bytes := by
  have hscalar : c.val.toNat < 0xD800 ∨ 0xDFFF < c.val.toNat ∧ c.val.toNat < 0x110000 := c.valid
  have hchar : Char.ofNat c.val.toNat = c := Char.ofNat_toNat c
  have hbyte : ∀ k, k < 256 → (UInt8.ofNat k).toNat = k := fun k hk ↦ by
    rw [UInt8.toNat_ofNat']
    exact Nat.mod_eq_of_lt hk
  simp only [String.utf8EncodeChar]
  generalize c.val.toNat = n at *
  split_ifs with h₁ h₂ h₃
  · rw [List.singleton_append, lossyFrom, nextByte, leadByte, hbyte _ (by omega),
      if_pos (by omega), hchar]
    rfl
  · have hlead := hbyte (n / 64 % 32 + 0xC0) (by omega)
    have hlast := hbyte (n % 64 + 0x80) (by omega)
    simp only [List.cons_append, List.nil_append]
    rw [lossyFrom_lead (leadByte_two hlead (by omega) h₂),
      lossyFrom_last hlast (by omega) (by omega), hchar]
  · have hlead := hbyte (n / 4096 % 16 + 0xE0) (by omega)
    have hsecond := hbyte (n / 64 % 64 + 0x80) (by omega)
    have hlast := hbyte (n % 64 + 0x80) (by omega)
    obtain ⟨lo, hi, hb, hlo, hhi⟩ := leadByte_three hlead (by omega) h₃ (by omega)
    simp only [List.cons_append, List.nil_append]
    rw [lossyFrom_lead hb, lossyFrom_next hsecond (by omega) (by omega),
      lossyFrom_last hlast (by omega) (by omega), hchar]
  · have hlead := hbyte (n / 262144 % 8 + 0xF0) (by omega)
    have hsecond := hbyte (n / 64 / 64 % 64 + 0x80) (by omega)
    have hthird := hbyte (n / 64 % 64 + 0x80) (by omega)
    have hlast := hbyte (n % 64 + 0x80) (by omega)
    obtain ⟨lo, hi, hb, hlo, hhi⟩ := leadByte_four hlead (by omega) (by omega)
    have hdiv : n / 4096 = n / 64 / 64 := by omega
    simp only [List.cons_append, List.nil_append]
    rw [hdiv, lossyFrom_lead hb, lossyFrom_next hsecond (by omega) (by omega),
      lossyFrom_next hthird (by omega) (by omega), lossyFrom_last hlast (by omega) (by omega),
      hchar]

/-- **Text that was encoded comes back as it was.** -/
theorem fromUtf8Lossy_bytes (s : Str) : fromUtf8Lossy (bytes s) = s := by
  rw [fromUtf8Lossy]
  induction s with
  | nil => rfl
  | cons c s ih => rw [bytes, List.flatMap_cons, lossyFrom_utf8EncodeChar, ← bytes, ih]

end Pwatch.Text
