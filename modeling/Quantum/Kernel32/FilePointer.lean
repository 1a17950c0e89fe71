import Mathlib.Logic.Function.Basic
import Quantum.Kernel32.Handles

/-!
# File positions

`SetFilePointer` and `SetFilePointerEx`, over a host whose `lseek` is that of POSIX.  A pointer that a call
writes through is what it points to, and `none` if it is null.
-/

namespace Quantum.Kernel32

/-- A file of the host as `lseek` sees it; both numbers fit `off_t`. -/
structure OpenFile where
  pos : ℕ
  size : ℕ
  pos_lt : pos < 2 ^ 63
  size_lt : size < 2 ^ 63

inductive Whence where
  | set
  | cur
  | end_

/-- The objects behind the handles, and the open files behind their descriptors. -/
structure FileHost where
  objects : Handle → Option KernelObject
  files : BitVec 32 → Option OpenFile

/-- Where an offset counts from. -/
def OpenFile.origin (f : OpenFile) : Whence → ℕ
  | .set => 0
  | .cur => f.pos
  | .end_ => f.size

/-- `lseek`: `-1` for a descriptor that is not open (`EBADF`), for a position before the start of the file
(`EINVAL`) and for one that does not fit `off_t` (`EOVERFLOW`). -/
def FileHost.lseek (host : FileHost) (fd : BitVec 32) (offset : BitVec 64) (whence : Whence) :
    FileHost × BitVec 64 :=
  match host.files fd with
  | none => (host, -1)
  | some f =>
    let target := (f.origin whence : Int) + offset.toInt
    if h : 0 ≤ target ∧ target < 2 ^ 63 then
      ({ host with
          files := Function.update host.files fd
            (some { f with pos := target.toNat, pos_lt := by omega }) },
        BitVec.ofInt 64 target)
    else (host, -1)

/-- `FILE_BEGIN`, `FILE_CURRENT` and `FILE_END`. -/
def whenceOf (method : BitVec 32) : Option Whence :=
  if method = 0 then some .set
  else if method = 1 then some .cur
  else if method = 2 then some .end_
  else none

/-- The descriptor behind a handle. -/
def FileHost.fdOf (host : FileHost) (handle : Handle) : Option (BitVec 32) :=
  match host.objects handle with
  | some (.file fd) => some fd
  | _ => none

/-- The host after a call, what its pointer points to then, and what it returns. -/
structure Moved (w : ℕ) where
  host : FileHost
  out : Option (BitVec w)
  ret : BitVec 32

def FileHost.setFilePointer (host : FileHost) (handle : Handle) (low : BitVec 32) (high : Option (BitVec 32))
    (method : BitVec 32) : Moved 32 :=
  let highVal : BitVec 64 :=
    match high with
    | some h => h.signExtend 64
    | none => 0
  let dist := highVal <<< 32 ||| low.setWidth 64
  match whenceOf method with
  | none => ⟨host, high, 0xFFFFFFFF⟩
  | some whence =>
    match host.fdOf handle with
    | none => ⟨host, high, 0xFFFFFFFF⟩
    | some fd =>
      let (host, newOff) := host.lseek fd dist whence
      if newOff.slt 0 then ⟨host, high, 0xFFFFFFFF⟩
      else ⟨host, high.map fun _ => (newOff.sshiftRight 32).setWidth 32, newOff.setWidth 32⟩

def FileHost.setFilePointerEx (host : FileHost) (handle : Handle) (dist : BitVec 64)
    (newPos : Option (BitVec 64)) (method : BitVec 32) : Moved 64 :=
  match whenceOf method with
  | none => ⟨host, newPos, 0⟩
  | some whence =>
    match host.fdOf handle with
    | none => ⟨host, newPos, 0⟩
    | some fd =>
      let (host, newOff) := host.lseek fd dist whence
      if newOff.slt 0 then ⟨host, newPos, 0⟩
      else ⟨host, newPos.map fun _ => newOff, 1⟩

end Quantum.Kernel32
