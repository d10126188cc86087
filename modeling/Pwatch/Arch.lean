import Pwatch.Text.Basic

/-!
# The two register tables

`src/arch` is compiled for one of two targets.  Each target has a mask of the
user registers the kernel samples and a table naming them by their position in
the sample.  Everything that is compiled against `arch` takes the target as a
parameter here.
-/

namespace Pwatch

/-- The targets the program is compiled for. -/
inductive Arch
  | x86_64
  | aarch64
deriving DecidableEq, Repr

namespace Arch

/-- `SAMPLE_REGS_USER`. -/
def sampleRegsUser : Arch → UInt64
  | .x86_64 => 0b1111_1111_0000_1111_1111_1111
  | .aarch64 => ((1 : UInt64) <<< (33 : UInt64)) - 1

/-- `u64::count_ones`. -/
def countOnes (n : UInt64) : Nat := (List.range 64).countP fun i ↦ n.toNat.testBit i

/-- `regs_count`. -/
def regsCount (arch : Arch) : Nat := countOnes arch.sampleRegsUser

/-- The names of the registers of a target, in the order of the sample. -/
def regNames : Arch → List String
  | .x86_64 =>
      ["ax", "bx", "cx", "dx", "si", "di", "bp", "sp", "ip", "flags", "cs", "ss",
        "r8", "r9", "r10", "r11", "r12", "r13", "r14", "r15"]
  | .aarch64 =>
      ["x0", "x1", "x2", "x3", "x4", "x5", "x6", "x7", "x8", "x9", "x10", "x11", "x12",
        "x13", "x14", "x15", "x16", "x17", "x18", "x19", "x20", "x21", "x22", "x23",
        "x24", "x25", "x26", "x27", "x28", "fp", "lr", "sp", "pc"]

/-- `id_to_str`: the arms of the `match`, numbered from zero, and its default. -/
def idToStr (arch : Arch) (id : Nat) : Str := (arch.regNames.getD id "unknown").toList

/-- No two registers of a target share a name, whatever its letter case. -/
theorem idToStr_injective (arch : Arch) {i j : Nat} (hi : i < arch.regsCount)
    (hj : j < arch.regsCount)
    (h : Text.eqIgnoreAsciiCase (arch.idToStr i) (arch.idToStr j) = true) : i = j := by
  have key : ∀ i < arch.regsCount, ∀ j < arch.regsCount,
      Text.eqIgnoreAsciiCase (arch.idToStr i) (arch.idToStr j) = true → i = j := by
    cases arch <;> decide +kernel
  exact key i hi j hj h

end Arch

end Pwatch
