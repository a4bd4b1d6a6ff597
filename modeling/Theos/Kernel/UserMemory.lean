import Mathlib.Data.Finmap
import Mathlib.Tactic
import Theos.Kernel.FrameAllocator

/-!
# The addresses of a user process

The record that `kernel/user.rs` keeps of an address space (`mappings`, the pages
the process has been given), and the address arithmetic of its memory calls.

`VirtAddr::new` panics on an address that is not canonical.
-/

namespace Theos
namespace Kernel

open Base

structure UserMapping where
  start : Nat
  len : Nat
  prot : Nat
  frame : PhysFrame
deriving DecidableEq, Repr

def userAllocBase : Nat := 0x0000_1000_0000_0000

/-- `AddressSpace`, without its root frame. -/
structure AddressSpace where
  nextAllocBase : Nat
  mappings : Finmap fun _ : Nat => UserMapping

/-- `AddressSpace::default`. -/
def AddressSpace.default : AddressSpace where
  nextAllocBase := userAllocBase
  mappings := ∅

/-- `align_up(value, align)` where the sum does not overflow. -/
def alignTo (align value : Nat) : Nat :=
  (value + align - 1) / align * align

def pml4Index (addr : Nat) : Nat := addr / 2 ^ 39 % 512

theorem alignTo_mod
    (align value : Nat) :
    alignTo align value % align = 0 :=
  Nat.mul_mod_left _ _

theorem le_alignTo {align : Nat}
    (h : 0 < align)
    (value : Nat) :
    value ≤ alignTo align value := by
  have hdiv := Nat.div_add_mod (value + align - 1) align
  have hmod := Nat.mod_lt (value + align - 1) h
  rw [alignTo, Nat.mul_comm]
  omega

namespace User

/-- `align_down(value, PAGE_SIZE)`. -/
def alignDown (value : Nat) : Nat :=
  value - value % pageSize

/-- `align_up(value, PAGE_SIZE)`, with the overflow of `value + align`. -/
def alignUp (value : Nat) : Option Nat :=
  if value = 0 then some 0
  else (addU 64 value pageSize).map fun _ => alignTo pageSize value

/-- The addresses `VirtAddr::new` accepts. -/
def Canonical (addr : Nat) : Prop :=
  addr < 2 ^ 47 ∨ 2 ^ 64 - 2 ^ 47 ≤ addr ∧ addr < 2 ^ 64

instance (addr : Nat) : Decidable (Canonical addr) :=
  inferInstanceAs (Decidable (_ ∨ _))

theorem alignDown_mod
    (value : Nat) :
    alignDown value % pageSize = 0 := by
  simp only [alignDown, pageSize]
  omega

theorem alignDown_of_mod {value : Nat}
    (h : value % pageSize = 0) :
    alignDown value = value := by
  rw [alignDown, h, Nat.sub_zero]

theorem alignUp_mod {value v : Nat}
    (h : alignUp value = some v) :
    v % pageSize = 0 := by
  simp only [alignUp] at h
  split at h
  · rw [← Option.some.inj h]
    rfl
  · obtain ⟨x, -, rfl⟩ := Option.map_eq_some_iff.mp h
    exact alignTo_mod _ _

/-- Pages are recorded under canonical addresses of pages. -/
def RecordedCanonical (space : AddressSpace) : Prop :=
  ∀ virt, (space.mappings.lookup virt).isSome → virt % pageSize = 0 ∧ Canonical virt

theorem recordedCanonical_default : RecordedCanonical AddressSpace.default := by
  intro virt h
  simp [AddressSpace.default] at h

end User

end Kernel
end Theos
