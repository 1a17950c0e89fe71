import Mathlib.Logic.Function.Basic
import Quantum.Lib.ByteMem

/-!
# Socket addresses

`bind`, `connect` and `sendto`, with the translation of the guest's address in place.  The call of the host
is recorded with the memory that the host sees; its result and `errno` are arguments.
-/

namespace Quantum.Kernel32.Socket

def SOCKET_ERROR : BitVec 32 := -1

/-- `wsa_from_errno`: apart from `EBADF`, every row of the table adds 10000. -/
def wsaFromErrno (e : BitVec 32) : BitVec 32 :=
  if e = 0 then 0
  else if e = 9 then 10038
  else 10000 + e

/-- `rewrite_win_sa_for_bsd`. -/
def rewriteWinSaForBsd (buf : BitVec 64) (len : BitVec 32) (mem : ByteMem) : ByteMem :=
  if buf = 0 ∨ len < 2 then mem
  else
    let fam := mem buf
    let mem := Function.update mem buf (BitVec.ofNat 8 (min len.toNat 255))
    Function.update mem (buf + 1) fam

/-- `rewrite_bsd_sa_for_win`. -/
def rewriteBsdSaForWin (buf : BitVec 64) (len : BitVec 32) (mem : ByteMem) : ByteMem :=
  if buf = 0 ∨ len < 2 then mem
  else
    let fam := mem (buf + 1)
    let mem := Function.update mem buf fam
    Function.update mem (buf + 1) 0

/-- The guest's memory, and `LAST_WSA_ERROR`. -/
structure State where
  mem : ByteMem
  lastError : BitVec 32

/-- A call of the host, with the memory at that time. -/
structure HostCall where
  syscall : String
  fd : BitVec 32
  /-- The bytes to send, with their length and the flags. -/
  payload : Option (BitVec 64 × BitVec 64 × BitVec 32)
  addr : BitVec 64
  len : BitVec 32
  mem : ByteMem

/-- What the host returns, and `errno` after it. -/
structure HostResult where
  ret : BitVec 64
  errno : BitVec 32

def State.setLastErrorFromErrno (s : State) (errno : BitVec 32) : State :=
  { s with lastError := wsaFromErrno errno }

/-- The calls that pass an address. -/
inductive Call where
  | bind (s addr : BitVec 64) (len : BitVec 32)
  | connect (s addr : BitVec 64) (len : BitVec 32)
  | sendto (s buf : BitVec 64) (len flags : BitVec 32) (dest : BitVec 64) (tolen : BitVec 32)

def Call.addr : Call → BitVec 64
  | .bind _ addr _ | .connect _ addr _ | .sendto _ _ _ _ addr _ => addr

def Call.len : Call → BitVec 32
  | .bind _ _ len | .connect _ _ len | .sendto _ _ _ _ _ len => len

/-- `bind` and `connect`, after the translation. -/
def State.named (s : State) (call : HostCall) (host : HostResult) : State × HostCall × BitVec 32 :=
  if (host.ret.setWidth 32).slt 0 then (s.setLastErrorFromErrno host.errno, call, SOCKET_ERROR)
  else (s, call, 0)

def State.call (s : State) (host : HostResult) : Call → State × HostCall × BitVec 32
  | .bind sock addr len =>
    let s := { s with mem := rewriteWinSaForBsd addr len s.mem }
    s.named ⟨"bind", sock.setWidth 32, none, addr, len, s.mem⟩ host
  | .connect sock addr len =>
    let s := { s with mem := rewriteWinSaForBsd addr len s.mem }
    s.named ⟨"connect", sock.setWidth 32, none, addr, len, s.mem⟩ host
  | .sendto sock buf len flags dest tolen =>
    let s := { s with mem := rewriteWinSaForBsd dest tolen s.mem }
    let call := ⟨"sendto", sock.setWidth 32, some (buf, len.signExtend 64, flags), dest, tolen, s.mem⟩
    if host.ret.slt 0 then (s.setLastErrorFromErrno host.errno, call, SOCKET_ERROR)
    else (s, call, host.ret.setWidth 32)

/-- A sequence of calls, with the calls of the host. -/
def State.calls (s : State) : List (Call × HostResult) → State × List HostCall
  | [] => (s, [])
  | (c, host) :: cs =>
    let (s, call, _) := s.call host c
    let (s, calls) := s.calls cs
    (s, call :: calls)

end Quantum.Kernel32.Socket
