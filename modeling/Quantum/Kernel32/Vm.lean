import Quantum.Lib.ByteMem
import Quantum.Loader.Protect

/-!
# Virtual memory

`VirtualAlloc` and `VirtualFree`, with `MachVmManager::allocate` under them.

The kernel of the host keeps the mapped pages.  Its answers are arguments, and an answer that it cannot give
has no successor: an allocation gets whole pages that nobody has mapped, at the requested address if that is
fixed, and the kernel may refuse any call.
-/

namespace Quantum.Kernel32.Vm

open Loader (Protection hostPageSize)

def MEM_COMMIT : BitVec 32 := 0x1000
def MEM_RESERVE : BitVec 32 := 0x2000
def MEM_RELEASE : BitVec 32 := 0x8000

def PAGE_NOACCESS : BitVec 32 := 0x01
def PAGE_READONLY : BitVec 32 := 0x02
def PAGE_READWRITE : BitVec 32 := 0x04
def PAGE_EXECUTE : BitVec 32 := 0x10
def PAGE_EXECUTE_READ : BitVec 32 := 0x20
def PAGE_EXECUTE_READWRITE : BitVec 32 := 0x40

def translateProtect (flags : BitVec 32) : Protection :=
  let base := flags &&& 0xFF
  if base = PAGE_NOACCESS then .NONE
  else if base = PAGE_READONLY then .R
  else if base = PAGE_READWRITE then .RW
  else if base = PAGE_EXECUTE then .RX
  else if base = PAGE_EXECUTE_READ then .RX
  else if base = PAGE_EXECUTE_READWRITE then .RWX
  else .RW

/-! ### The host's address space -/

/-- A range of addresses: its base and its length. -/
abbrev Range := BitVec 64 × BitVec 64

/-- The numbers of the pages that a range touches. -/
def pages (r : Range) : List ℕ :=
  let first := r.1.toNat / hostPageSize
  List.range' first ((r.1.toNat + r.2.toNat + hostPageSize - 1) / hostPageSize - first)

structure AddressSpace where
  mapped : ℕ → Bool
  protection : ℕ → Protection
  mem : ByteMem

def KERN_SUCCESS : BitVec 32 := 0

/-- What the kernel answers to the calls of one allocation; an allocation that succeeds has an address. -/
structure HostAnswers where
  allocate : Except (BitVec 32) (BitVec 64)
  protect : BitVec 32
  deallocate : BitVec 32

namespace AddressSpace

/-- The pages of a range, mapped with zeros. -/
def map (s : AddressSpace) (r : Range) : AddressSpace where
  mapped n := decide (n ∈ pages r) || s.mapped n
  protection n := if n ∈ pages r then .RW else s.protection n
  mem a := if a.toNat / hostPageSize ∈ pages r then 0 else s.mem a

/-- The kernel can place the range: on pages of its own, and where the request fixes it. -/
def CanPlace (s : AddressSpace) (r : Range) (fixed : Option (BitVec 64)) : Prop :=
  hostPageSize ∣ r.1.toNat ∧ r.1.toNat + r.2.toNat ≤ 2 ^ 64 ∧ (∀ n ∈ pages r, s.mapped n = false) ∧
    ∀ addr ∈ fixed, r.1.toNat = addr.toNat / hostPageSize * hostPageSize

instance (s : AddressSpace) (r : Range) (fixed : Option (BitVec 64)) : Decidable (s.CanPlace r fixed) :=
  inferInstanceAs (Decidable (_ ∧ _ ∧ _ ∧ _))

/-- `mach_vm_allocate`, at the address given (`VM_FLAGS_FIXED`) or anywhere. -/
def machVmAllocate (s : AddressSpace) (fixed : Option (BitVec 64)) (size : BitVec 64)
    (answer : Except (BitVec 32) (BitVec 64)) : Option (AddressSpace × Except (BitVec 32) (BitVec 64)) :=
  match answer with
  | .error kr => if kr = KERN_SUCCESS then none else some (s, .error kr)
  | .ok addr => if s.CanPlace (addr, size) fixed then some (s.map (addr, size), .ok addr) else none

/-- `mach_vm_protect`. -/
def machVmProtect (s : AddressSpace) (r : Range) (prot : Protection) (kr : BitVec 32) : AddressSpace :=
  if kr = KERN_SUCCESS then
    { s with protection := fun n => if n ∈ pages r then prot else s.protection n }
  else s

/-- `mach_vm_deallocate` and `munmap`, by their result. -/
def unmap (s : AddressSpace) (r : Range) (rc : BitVec 32) : AddressSpace :=
  if rc = 0 then { s with mapped := fun n => !decide (n ∈ pages r) && s.mapped n } else s

end AddressSpace

/-- `Error::Host`. -/
structure HostError where
  syscall : String
  code : BitVec 32

/-- `MachVmManager::allocate`. -/
def AddressSpace.allocate (s : AddressSpace) (hint : Option (BitVec 64)) (size : BitVec 64)
    (prot : Protection) (host : HostAnswers) : Option (AddressSpace × Except HostError Range) :=
  match s.machVmAllocate hint size host.allocate with
  | none => none
  | some (s, .error kr) => some (s, .error ⟨"mach_vm_allocate", kr⟩)
  | some (s, .ok addr) =>
    if prot ≠ .RW ∧ host.protect ≠ KERN_SUCCESS then
      some (s.unmap (addr, size) host.deallocate, .error ⟨"mach_vm_protect", host.protect⟩)
    else
      let s := if prot ≠ .RW then s.machVmProtect (addr, size) prot host.protect else s
      if addr = 0 then some (s, .error ⟨"mach_vm_allocate(null)", 0⟩)
      else some (s, .ok (addr, size))

/-! ### The thunks -/

/-- The address space, and the regions in `vm_table`. -/
structure VmState where
  space : AddressSpace
  regions : List Range

/-- `VirtualAlloc`. -/
def VmState.virtualAlloc (v : VmState) (address size : BitVec 64) (allocType protect : BitVec 32)
    (host : HostAnswers) : Option (VmState × BitVec 64) :=
  if size = 0 then some (v, 0)
  else if allocType &&& (MEM_RESERVE ||| MEM_COMMIT) = 0 then some (v, 0)
  else
    let hint := if address = 0 then none else some address
    match v.space.allocate hint size (translateProtect protect) host with
    | none => none
    | some (s, .error _) => some (⟨s, v.regions⟩, 0)
    | some (s, .ok r) => some (⟨s, v.regions ++ [r]⟩, r.1)

/-- `Vec::swap_remove`: the last element takes the place. -/
def swapRemove {α : Type} (l : List α) (i : ℕ) : List α :=
  match l.getLast? with
  | none => []
  | some last => (l.set i last).dropLast

/-- `VirtualFree`, with what `munmap` returns. -/
def VmState.virtualFree (v : VmState) (address : BitVec 64) (_size : BitVec 64) (freeType : BitVec 32)
    (rc : BitVec 32) : VmState × BitVec 32 :=
  if address = 0 then (v, 0)
  else if freeType &&& MEM_RELEASE = 0 then (v, 1)
  else
    match v.regions.findIdx? (·.1 == address) with
    | none => (v, 0)
    | some i =>
      let len := (v.regions.getD i (0, 0)).2
      (⟨v.space.unmap (address, len) rc, swapRemove v.regions i⟩, if rc = 0 then 1 else 0)

/-! ### Runs -/

inductive Call where
  | virtualAlloc (address size : BitVec 64) (allocType protect : BitVec 32) (host : HostAnswers)
  | virtualFree (address size : BitVec 64) (freeType : BitVec 32) (rc : BitVec 32)

/-- A call and what it has returned. -/
inductive Outcome where
  | allocated (size : BitVec 64) (allocType : BitVec 32) (base : BitVec 64)
  | freed (address : BitVec 64) (freeType : BitVec 32) (ret : BitVec 32)

/-- The state, and the log of the calls with its newest entry first. -/
structure Traced where
  vm : VmState
  log : List Outcome

namespace Traced

/-- Before the first call, in any address space. -/
def new (s : AddressSpace) : Traced := ⟨⟨s, []⟩, []⟩

def step (t : Traced) : Call → Option Traced
  | .virtualAlloc address size allocType protect host =>
    (t.vm.virtualAlloc address size allocType protect host).map fun (vm, base) =>
      ⟨vm, .allocated size allocType base :: t.log⟩
  | .virtualFree address size freeType rc =>
    let (vm, ret) := t.vm.virtualFree address size freeType rc
    some ⟨vm, .freed address freeType ret :: t.log⟩

end Traced

end Quantum.Kernel32.Vm
