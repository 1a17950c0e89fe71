import Quantum.Loader.Load

/-!
# Protections of an image

`MappedSection::protection` and `finalize_protections`.  The kernel's `protect` is a parameter; host
addresses, and sums of RVAs and sizes, do not overflow.
-/

namespace Quantum.Loader

/-- A set of rights: read, write and execute are the bits 0 to 2. -/
structure Protection where
  bits : BitVec 8
  deriving DecidableEq

namespace Protection

def NONE : Protection := ⟨0⟩
def R : Protection := ⟨0b001⟩
def RW : Protection := ⟨0b011⟩
def RX : Protection := ⟨0b101⟩
def RWX : Protection := ⟨0b111⟩

end Protection

/-- `scn`: the rights in the characteristics of a section. -/
def MEM_EXECUTE : BitVec 32 := 0x20000000
def MEM_READ : BitVec 32 := 0x40000000
def MEM_WRITE : BitVec 32 := 0x80000000

def MappedSection.protection (s : MappedSection) : Protection :=
  let r := s.characteristics &&& MEM_READ ≠ 0
  let w := s.characteristics &&& MEM_WRITE ≠ 0
  let x := s.characteristics &&& MEM_EXECUTE ≠ 0
  if w then if x then .RWX else .RW
  else if x then .RX
  else if r then .R
  else .NONE

def hostPageSize : Nat :=
  16 * 1024

def alignUp (x align : Nat) : Nat :=
  (x + align - 1) / align * align

/-- The RVAs that are protected for a section: from its start rounded down to a page to its end rounded
up. -/
def MappedSection.startRva (s : MappedSection) : Nat :=
  s.rva.toNat / hostPageSize * hostPageSize

def MappedSection.endRva (s : MappedSection) : Nat :=
  alignUp (s.rva.toNat + max s.vsize.toNat s.rawSize.toNat) hostPageSize

/-- The protection of each byte of the host's memory. -/
abbrev Protections := Nat → Protection

/-- The loop of `finalize_protections` for an image at `base`. -/
def finalizeProtections
    (protect : Nat → Nat → Protection → Protections → Except LoadError Protections) (base : Nat) :
    List MappedSection → Protections → Except LoadError Protections
  | [], prots => .ok prots
  | s :: sections, prots =>
    let len := s.endRva - s.startRva
    if len = 0 then finalizeProtections protect base sections prots
    else do
      let prots ← protect (base + s.startRva) len s.protection prots
      finalizeProtections protect base sections prots

end Quantum.Loader
