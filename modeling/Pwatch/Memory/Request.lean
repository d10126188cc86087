import Pwatch.Slices
import Pwatch.Text.Number
import Pwatch.Word

/-!
# Memory requests

The two requests of `src/memory_api.rs` and their checks.  `Valid` says in the terms of
a client what the checks let pass; `validate` returns the address exactly then.
-/

namespace Pwatch.Memory

open Text

/-- `MAX_BYTES`. -/
def maxBytes : Nat := 4096

/-- `default_size`. -/
def defaultSize : Nat := 256

/-- `ReadRequest`. -/
structure ReadRequest where
  pid : UInt32
  addr : Str
  size : Nat := defaultSize
deriving DecidableEq, Repr

/-- `WriteRequest`. -/
structure WriteRequest where
  pid : UInt32
  addr : Str
  data : Str
deriving DecidableEq, Repr

/-! ## The checks -/

/-- The text `validate` reads digits from. -/
def addrDigits (addr : Str) : Str :=
  let text := trim addr
  ((stripPrefix "0x".toList text).or (stripPrefix "0X".toList text)).getD text

/-- `validate`. -/
def validate (pid : UInt32) (addr : Str) (size : Nat) : Except Str UInt64 :=
  if pid = 0 ∨ 2147483647 < pid then
    .error "pid must be between 1 and 2147483647".toList
  else if ¬ (1 ≤ size ∧ size ≤ maxBytes) then
    .error "size must be between 1 and 4096 bytes".toList
  else
    let text := addrDigits addr
    if text = [] ∨ 16 < (bytes text).length ∨
        ¬ ((bytes text).all fun b ↦ isAsciiHexdigit b.toNat) then
      .error "addr must be a hexadecimal string of at most 16 digits".toList
    else match fromStrRadix 16 text with
      | .error kind => .error kind.message
      | .ok addr =>
          match checkedAdd addr (UInt64.ofNat size - 1) with
          | none => .error "address range overflows u64".toList
          | some _ => .ok addr

/-- `u8::is_ascii_whitespace`. -/
def isAsciiWhitespace (b : UInt8) : Bool :=
  b == 0x20 || b == 0x09 || b == 0x0A || b == 0x0C || b == 0x0D

/-- The closure `nibble`. -/
def nibble (b : UInt8) : UInt8 :=
  if 48 ≤ b ∧ b ≤ 57 then b - 48
  else (if 65 ≤ b ∧ b ≤ 90 then b + 32 else b) - 97 + 10

/-- `decode_hex`.  Each chunk has two bytes, since their number is even. -/
def decodeHex (text : Str) : Except Str (List UInt8) :=
  let digits := (bytes text).filter fun b ↦ !isAsciiWhitespace b
  if digits = [] ∨ maxBytes * 2 < digits.length ∨ digits.length % 2 ≠ 0 ∨
      ¬ (digits.all fun b ↦ isAsciiHexdigit b.toNat) then
    .error ("data must contain 1..=4096 hex byte pairs, " ++
      "optionally separated by whitespace").toList
  else .ok ((chunks 2 digits).map fun pair ↦
    nibble (pair.getD 0 0) <<< 4 ||| nibble (pair.getD 1 0))

/-! ## What the checks mean -/

/-- The text denotes the address: one to sixteen hex digits behind at most one prefix, with
any whitespace around. -/
def Denotes (addr : Str) (value : UInt64) : Prop :=
  ∃ lead pre digits trail, addr = lead ++ (pre ++ digits) ++ trail ∧ Blank lead ∧ Blank trail ∧
    (pre = [] ∨ pre = "0x".toList ∨ pre = "0X".toList) ∧
      1 ≤ digits.length ∧ digits.length ≤ 16 ∧ IsNumeral 16 digits ∧
        ofDigits 16 digits = value.toNat

/-- The values the driver may be asked for. -/
structure Valid (pid : UInt32) (addr : Str) (size : Nat) (value : UInt64) : Prop where
  pid_pos : 1 ≤ pid.toNat
  pid_le : pid.toNat ≤ 2 ^ 31 - 1
  size_pos : 1 ≤ size
  size_le : size ≤ 4096
  denotes : Denotes addr value
  no_wrap : value.toNat + size - 1 < 2 ^ 64

/-! ## Address texts -/

section

variable {digits : Str}

/-- A text that starts with a prefix is no numeral. -/
theorem stripPrefix_eq_none {x : Char} (hx : toDigit 16 x = none) (h : IsNumeral 16 digits) :
    stripPrefix ['0', x] digits = none := by
  rw [Option.eq_none_iff_forall_ne_some]
  intro rest hrest
  have hmem : x ∈ digits := by
    rw [stripPrefix_eq_some.mp hrest]
    simp
  exact h.not_mem hx hmem

/-- The digits behind whitespace and one prefix. -/
theorem addrDigits_eq {lead pre trail : Str} (hlead : Blank lead) (htrail : Blank trail)
    (hpre : pre = [] ∨ pre = "0x".toList ∨ pre = "0X".toList) (hne : digits ≠ [])
    (h : IsNumeral 16 digits) : addrDigits (lead ++ (pre ++ digits) ++ trail) = digits := by
  have htrim := trim_eq hlead htrail (trimmed_prefix_append hpre hne h)
    (List.append_ne_nil_of_right_ne_nil pre hne)
  rw [addrDigits, htrim]
  rcases hpre with rfl | rfl | rfl
  · have hx : stripPrefix "0x".toList digits = none := stripPrefix_eq_none rfl h
    have hX : stripPrefix "0X".toList digits = none := stripPrefix_eq_none rfl h
    simp only [List.nil_append, hx, hX, Option.or_none, Option.getD_none]
  · simp only [stripPrefix_append, Option.some_or, Option.getD_some]
  · have hx : stripPrefix "0x".toList ("0X".toList ++ digits) = none := rfl
    simp only [hx, stripPrefix_append, Option.none_or, Option.getD_some]

/-- What `addrDigits` takes away is whitespace and one prefix. -/
theorem addrDigits_spec (addr : Str) :
    ∃ lead pre trail, addr = lead ++ (pre ++ addrDigits addr) ++ trail ∧ Blank lead ∧ Blank trail ∧
      (pre = [] ∨ pre = "0x".toList ∨ pre = "0X".toList) := by
  obtain ⟨lead, trail, haddr, hlead, htrail, -⟩ := trim_spec addr
  obtain ⟨pre, htext, hpre⟩ : ∃ pre, trim addr = pre ++ addrDigits addr ∧
      (pre = [] ∨ pre = "0x".toList ∨ pre = "0X".toList) := by
    rw [addrDigits]
    cases hx : stripPrefix "0x".toList (trim addr) with
    | some text => exact ⟨_, stripPrefix_eq_some.mp hx, .inr (.inl rfl)⟩
    | none =>
        cases hX : stripPrefix "0X".toList (trim addr) with
        | some text => exact ⟨_, stripPrefix_eq_some.mp hX, .inr (.inr rfl)⟩
        | none => exact ⟨[], rfl, .inl rfl⟩
  exact ⟨lead, pre, trail, htext ▸ haddr, hlead, htrail, hpre⟩

end

/-- A text denotes an address when its digits do. -/
theorem denotes_iff {addr : Str} {value : UInt64} :
    Denotes addr value ↔ addrDigits addr ≠ [] ∧ (addrDigits addr).length ≤ 16 ∧
      IsNumeral 16 (addrDigits addr) ∧ ofDigits 16 (addrDigits addr) = value.toNat := by
  constructor
  · rintro ⟨lead, pre, digits, trail, rfl, hlead, htrail, hpre, hpos, hle, hnum, hvalue⟩
    have hne : digits ≠ [] := List.ne_nil_of_length_pos hpos
    rw [addrDigits_eq hlead htrail hpre hne hnum]
    exact ⟨hne, hle, hnum, hvalue⟩
  · rintro ⟨hne, hle, hnum, hvalue⟩
    obtain ⟨lead, pre, trail, haddr, hlead, htrail, hpre⟩ := addrDigits_spec addr
    exact ⟨lead, pre, _, trail, haddr, hlead, htrail, hpre, List.length_pos_of_ne_nil hne, hle,
      hnum, hvalue⟩

/-! ## `validate` -/

/-- The check of the digits. -/
theorem digits_ok_iff (text : Str) :
    ¬ (text = [] ∨ 16 < (bytes text).length ∨
      ¬ ((bytes text).all fun b ↦ isAsciiHexdigit b.toNat) = true) ↔
        text ≠ [] ∧ text.length ≤ 16 ∧ IsNumeral 16 text := by
  rw [not_or, not_or, not_not, Nat.not_lt, all_bytes_isAsciiHexdigit, isNumeral_sixteen_iff]
  constructor
  · rintro ⟨hne, hle, hall⟩
    exact ⟨hne, length_bytes hall ▸ hle, hall⟩
  · rintro ⟨hne, hle, hall⟩
    exact ⟨hne, (length_bytes hall).symm ▸ hle, hall⟩

/-- `from_str_radix` cannot fail on digits that are checked. -/
theorem fromStrRadix_of_checked {text : Str} (hne : text ≠ []) (hle : text.length ≤ 16)
    (hnum : IsNumeral 16 text) : fromStrRadix 16 text = .ok (UInt64.ofNat (ofDigits 16 text)) :=
  (fromStrRadix_of_isNumeral (by decide) hne hnum _).mpr ⟨ofDigits_sixteen_lt hle, rfl⟩

/-- The check of the pid. -/
theorem pid_ok_iff (pid : UInt32) :
    ¬ (pid = 0 ∨ 2147483647 < pid) ↔ 1 ≤ pid.toNat ∧ pid.toNat ≤ 2 ^ 31 - 1 := by
  rw [not_or, UInt32.not_lt, UInt32.le_iff_toNat_le, ← UInt32.toNat_inj, Nat.one_le_iff_ne_zero]
  exact Iff.rfl

/-- The check of the range: the last byte has an address. -/
theorem range_ok_iff {size : Nat} (hpos : 1 ≤ size) (hle : size ≤ 4096) (value : UInt64) :
    checkedAdd value (UInt64.ofNat size - 1) = none ↔ ¬ value.toNat + size - 1 < 2 ^ 64 := by
  have hmod : (UInt64.ofNat size).toNat = size :=
    UInt64.toNat_ofNat_of_lt' (Nat.lt_of_le_of_lt hle (by decide))
  have hlast : (UInt64.ofNat size - 1).toNat = size - 1 := by
    rw [UInt64.toNat_sub_of_le _ _ (by rw [UInt64.le_iff_toNat_le, hmod]; exact hpos), hmod]
    rfl
  rw [checkedAdd_eq_none, hlast, Nat.not_lt, Nat.add_sub_assoc hpos]

/-- **What `validate` accepts.** -/
theorem validate_eq_ok_iff {pid : UInt32} {addr : Str} {size : Nat} {value : UInt64} :
    validate pid addr size = .ok value ↔ Valid pid addr size value := by
  unfold validate
  split
  · rename_i hpid
    exact iff_of_false nofun fun h ↦ (pid_ok_iff pid).mpr ⟨h.pid_pos, h.pid_le⟩ hpid
  rename_i hpid
  obtain ⟨hpid_pos, hpid_le⟩ := (pid_ok_iff pid).mp hpid
  split
  · rename_i hsize
    exact iff_of_false nofun fun h ↦ hsize ⟨h.size_pos, h.size_le⟩
  rename_i hsize
  obtain ⟨hsize_pos, hsize_le⟩ : 1 ≤ size ∧ size ≤ 4096 := not_not.mp hsize
  dsimp only
  split
  · rename_i htext
    refine iff_of_false nofun fun h ↦ ?_
    obtain ⟨hne, hle, hnum, -⟩ := denotes_iff.mp h.denotes
    exact (digits_ok_iff _).mpr ⟨hne, hle, hnum⟩ htext
  rename_i htext
  obtain ⟨hne, hle, hnum⟩ := (digits_ok_iff _).mp htext
  rw [fromStrRadix_of_checked hne hle hnum]
  dsimp only
  have hdenoted : (UInt64.ofNat (ofDigits 16 (addrDigits addr))).toNat =
      ofDigits 16 (addrDigits addr) := UInt64.toNat_ofNat_of_lt' (ofDigits_sixteen_lt hle)
  -- the only address the text can denote
  have hunique : Denotes addr value → UInt64.ofNat (ofDigits 16 (addrDigits addr)) = value :=
    fun hdenotes ↦ UInt64.toNat_inj.mp (hdenoted.trans (denotes_iff.mp hdenotes).2.2.2)
  have hrange := range_ok_iff hsize_pos hsize_le (UInt64.ofNat (ofDigits 16 (addrDigits addr)))
  split
  · rename_i hnone
    refine iff_of_false nofun fun h ↦ hrange.mp hnone ?_
    rw [hunique h.denotes]
    exact h.no_wrap
  · rename_i hsome
    constructor
    · intro hok
      obtain rfl := Except.ok.inj hok
      have hfits := not_not.mp fun hno ↦
        Option.some_ne_none _ (hsome.symm.trans (hrange.mpr hno))
      exact ⟨hpid_pos, hpid_le, hsize_pos, hsize_le,
        denotes_iff.mpr ⟨hne, hle, hnum, hdenoted.symm⟩, hfits⟩
    · exact fun h ↦ congrArg Except.ok (hunique h.denotes)

/-- The digits are checked before they are parsed, so the parser reports no error. -/
theorem validate_ne_parse_error {pid : UInt32} {addr : Str} {size : Nat} (kind : IntErrorKind) :
    validate pid addr size ≠ .error kind.message := by
  unfold validate
  split
  · cases kind <;> decide
  split
  · cases kind <;> decide
  dsimp only
  split
  · cases kind <;> decide
  rename_i htext
  obtain ⟨hne, hle, hnum⟩ := (digits_ok_iff _).mp htext
  rw [fromStrRadix_of_checked hne hle hnum]
  dsimp only
  split
  · cases kind <;> decide
  · exact nofun

end Pwatch.Memory
