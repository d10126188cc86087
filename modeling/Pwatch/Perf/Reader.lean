import Pwatch.Bytes
import Pwatch.Ring

/-!
# The ring reader

`RingReader` of `src/perf.rs`: numbers are read byte by byte, and each byte is taken
modulo the size of the ring.  `Decodes m bytes a` says that `m` reads exactly `bytes`
and returns `a` wherever in the ring they stand; readers compose with the bytes they
read (`Decodes.bind`), so no reader is ever looked at across the wrap again.
-/

namespace Pwatch.Perf

/-! ## The code -/

/-- `RingReader`, with the mapped data in place of its address and size. -/
structure RingReader (dataSize : Nat) where
  data : Ring UInt8 dataSize
  baseOffset : UInt64
  offset : UInt64

/-- A method of the reader. -/
abbrev Reading (dataSize : Nat) (α : Type) := StateM (RingReader dataSize) α

/-- `perf_event_header`. -/
structure PerfEventHeader where
  type : UInt32
  misc : UInt16
  size : UInt16
deriving DecidableEq, Repr

section

variable {dataSize : Nat}

/-- One turn of the loop of `read_array`. -/
def readByte : Reading dataSize UInt8 := fun reader ↦
  (reader.data.get (reader.baseOffset + reader.offset).toNat,
    { reader with offset := reader.offset + 1 })

/-- `read_array`. -/
def readArray : Nat → Reading dataSize (List UInt8)
  | 0 => pure []
  | n + 1 => do
      let byte ← readByte
      let out ← readArray n
      return byte :: out

variable (endian : Endian)

/-- `read_u16`. -/
def readU16 : Reading dataSize UInt16 :=
  return UInt16.ofNat (endian.ofBytes (← readArray 2))

/-- `read_u32`. -/
def readU32 : Reading dataSize UInt32 :=
  return UInt32.ofNat (endian.ofBytes (← readArray 4))

/-- `read_u64`. -/
def readU64 : Reading dataSize UInt64 :=
  return UInt64.ofNat (endian.ofBytes (← readArray 8))

/-- `read_header`. -/
def readHeader : Reading dataSize PerfEventHeader := do
  let type ← readU32 endian
  let misc ← readU16 endian
  let size ← readU16 endian
  return { type, misc, size }

/-- The loops that read one `u64` after the other. -/
def readU64s : Nat → Reading dataSize (List UInt64)
  | 0 => pure []
  | n + 1 => do
      let value ← readU64 endian
      let values ← readU64s n
      return value :: values

end

/-! ## Decoding -/

section

variable {n : Nat} {α β : Type} {m : Reading n α} {f : α → Reading n β} {xs ys : List UInt8}
  {a : α} {b : β}

/-- Where the next bytes are `bytes`, `m` reads them and returns `a`, as long as the
positions are below `2 ^ 64`. -/
def Decodes (m : Reading n α) (bytes : List UInt8) (a : α) : Prop :=
  ∀ reader : RingReader n,
    reader.baseOffset.toNat + reader.offset.toNat + bytes.length < 2 ^ 64 →
    reader.data.Holds (reader.baseOffset.toNat + reader.offset.toNat) bytes →
      m reader = (a, { reader with offset := reader.offset + UInt64.ofNat bytes.length })

theorem Decodes.pure (a : α) : Decodes (Pure.pure a : Reading n α) [] a := by
  intro reader _ _
  have hzero : reader.offset + UInt64.ofNat 0 = reader.offset := UInt64.add_zero _
  rw [List.length_nil, hzero]
  rfl

/-- **Readers one after the other** read the bytes one after the other. -/
theorem Decodes.bind (hm : Decodes m xs a) (hf : Decodes (f a) ys b) :
    Decodes (m >>= f) (xs ++ ys) b := by
  intro reader hlt hholds
  rw [List.length_append] at hlt ⊢
  obtain ⟨hxs, hys⟩ := Ring.holds_append.mp hholds
  have hlen : (UInt64.ofNat xs.length).toNat = xs.length :=
    UInt64.toNat_ofNat_of_lt' (Nat.lt_of_le_of_lt (by omega) hlt)
  have hoffset : (reader.offset + UInt64.ofNat xs.length).toNat =
      reader.offset.toNat + xs.length := by
    rw [UInt64.toNat_add, hlen]
    exact Nat.mod_eq_of_lt (by omega)
  have hfirst := hm reader (by omega) hxs
  have hsecond := hf { reader with offset := reader.offset + UInt64.ofNat xs.length }
    (by simp only [hoffset]; omega) (by simpa only [hoffset, Nat.add_assoc] using hys)
  change f (m reader).1 (m reader).2 = _
  rw [hfirst]
  rw [hsecond]
  simp [UInt64.add_assoc]

/-- A reader that only computes with what was read. -/
theorem Decodes.map (hm : Decodes m xs a) (g : α → β) :
    Decodes (do return g (← m)) xs (g a) := by
  have h : Decodes (m >>= fun a ↦ Pure.pure (g a)) (xs ++ []) (g a) := hm.bind (.pure (g a))
  rwa [List.append_nil] at h

theorem decodes_readByte (byte : UInt8) : Decodes (readByte : Reading n UInt8) [byte] byte := by
  intro reader hlt hholds
  have hindex : (reader.baseOffset + reader.offset).toNat =
      reader.baseOffset.toNat + reader.offset.toNat := by
    rw [UInt64.toNat_add]
    exact Nat.mod_eq_of_lt (by omega)
  rw [readByte, hindex, hholds.1]
  rfl

theorem decodes_readArray (bytes : List UInt8) :
    Decodes (readArray bytes.length : Reading n (List UInt8)) bytes bytes := by
  induction bytes with
  | nil => exact .pure []
  | cons byte bytes ih => exact (decodes_readByte byte).bind (ih.map _)

/-- The bytes of a number are read as that number. -/
theorem decodes_readArray_toBytes (endian : Endian) (n k v : Nat) :
    Decodes (readArray k : Reading n (List UInt8)) (endian.toBytes k v) (endian.toBytes k v) := by
  have h := decodes_readArray (n := n) (endian.toBytes k v)
  rwa [Endian.length_toBytes] at h

variable (endian : Endian)

theorem decodes_readU16 (v : UInt16) :
    Decodes (readU16 endian : Reading n UInt16) (endian.toBytes 2 v.toNat) v := by
  have h := (decodes_readArray_toBytes endian n 2 v.toNat).map
    fun bytes ↦ UInt16.ofNat (endian.ofBytes bytes)
  rwa [Endian.ofBytes_toBytes _ v.toNat_lt, UInt16.ofNat_toNat] at h

theorem decodes_readU32 (v : UInt32) :
    Decodes (readU32 endian : Reading n UInt32) (endian.toBytes 4 v.toNat) v := by
  have h := (decodes_readArray_toBytes endian n 4 v.toNat).map
    fun bytes ↦ UInt32.ofNat (endian.ofBytes bytes)
  rwa [Endian.ofBytes_toBytes _ v.toNat_lt, UInt32.ofNat_toNat] at h

theorem decodes_readU64 (v : UInt64) :
    Decodes (readU64 endian : Reading n UInt64) (endian.toBytes 8 v.toNat) v := by
  have h := (decodes_readArray_toBytes endian n 8 v.toNat).map
    fun bytes ↦ UInt64.ofNat (endian.ofBytes bytes)
  rwa [Endian.ofBytes_toBytes _ v.toNat_lt, UInt64.ofNat_toNat] at h

/-- The bytes of a sequence of `u64`. -/
def u64Bytes (values : List UInt64) : List UInt8 :=
  values.flatMap fun v ↦ endian.toBytes 8 v.toNat

@[simp] theorem length_u64Bytes (values : List UInt64) :
    (u64Bytes endian values).length = 8 * values.length := by
  induction values with
  | nil => rfl
  | cons v values ih =>
      rw [u64Bytes, List.flatMap_cons, List.length_append, Endian.length_toBytes, List.length_cons]
      change 8 + (u64Bytes endian values).length = _
      omega

theorem decodes_readU64s (values : List UInt64) :
    Decodes (readU64s endian values.length : Reading n (List UInt64)) (u64Bytes endian values)
      values := by
  induction values with
  | nil => exact .pure []
  | cons v values ih => exact (decodes_readU64 endian v).bind (ih.map _)

/-- The bytes of a header. -/
def PerfEventHeader.bytes (header : PerfEventHeader) : List UInt8 :=
  endian.toBytes 4 header.type.toNat ++ (endian.toBytes 2 header.misc.toNat ++
    endian.toBytes 2 header.size.toNat)

/-- `size_of::<perf_event_header>()`. -/
@[simp] theorem PerfEventHeader.length_bytes (header : PerfEventHeader) :
    (header.bytes endian).length = 8 := by
  simp [bytes]

theorem decodes_readHeader (header : PerfEventHeader) :
    Decodes (readHeader endian : Reading n PerfEventHeader) (header.bytes endian) header :=
  (decodes_readU32 endian header.type).bind ((decodes_readU16 endian header.misc).bind
    ((decodes_readU16 endian header.size).map _))

end

end Pwatch.Perf
