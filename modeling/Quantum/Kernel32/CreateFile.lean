import Mathlib.Algebra.Group.Nat.Defs
import Mathlib.Logic.Function.Basic

/-!
# Opening files

`open_file`, over a host whose `open` reads the flags as Darwin does, with the numbers of `sys`; and
`OpenFlags::to_host`, which the runtime uses for its own files.
-/

namespace Quantum.Kernel32.File

/-! ### The host -/

def O_RDONLY : BitVec 32 := 0x0000
def O_WRONLY : BitVec 32 := 0x0001
def O_RDWR : BitVec 32 := 0x0002
def O_APPEND : BitVec 32 := 0x0008
def O_CREAT : BitVec 32 := 0x0200
def O_TRUNC : BitVec 32 := 0x0400
def O_EXCL : BitVec 32 := 0x0800

/-- The files of the host and their contents, by path. -/
abbrev Files := String → Option (List (BitVec 8))

/-- A descriptor, as the host hands them out. -/
abbrev Fd := Fin (2 ^ 31)

/-- `open(2)` of a plain file: the files after it, and a descriptor or `-1`. -/
def hostOpen (files : Files) (path : String) (flags : BitVec 32) (fd : Fd) : Files × BitVec 32 :=
  match files path with
  | none =>
    if flags &&& O_CREAT ≠ 0 then (Function.update files path (some []), BitVec.ofNat 32 fd)
    else (files, -1)
  | some _ =>
    if flags &&& O_CREAT ≠ 0 ∧ flags &&& O_EXCL ≠ 0 then (files, -1)
    else if flags &&& O_TRUNC ≠ 0 then (Function.update files path (some []), BitVec.ofNat 32 fd)
    else (files, BitVec.ofNat 32 fd)

structure OpenFlags where
  read : Bool
  write : Bool
  append : Bool
  create : Bool
  truncate : Bool
  exclusive : Bool

def OpenFlags.toHost (o : OpenFlags) : BitVec 32 :=
  let f :=
    match o.read, o.write with
    | true, false => O_RDONLY
    | false, true => O_WRONLY
    | _, _ => O_RDWR
  let f := if o.append then f ||| O_APPEND else f
  let f := if o.create then f ||| O_CREAT else f
  let f := if o.truncate then f ||| O_TRUNC else f
  if o.exclusive then f ||| O_EXCL else f

/-! ### `CreateFile` -/

/-- `translate_path`: slashes, and no drive letter. -/
def translatePath (win : String) : String :=
  match win.toList.map fun c => if c = '\\' then '/' else c with
  | c :: ':' :: rest => if c.isAlpha then String.ofList rest else String.ofList (c :: ':' :: rest)
  | s => String.ofList s

def GENERIC_READ : BitVec 32 := 0x80000000
def GENERIC_WRITE : BitVec 32 := 0x40000000

def CREATE_NEW : BitVec 32 := 1
def CREATE_ALWAYS : BitVec 32 := 2
def OPEN_EXISTING : BitVec 32 := 3
def OPEN_ALWAYS : BitVec 32 := 4
def TRUNCATE_EXISTING : BitVec 32 := 5

def accessFlags (access : BitVec 32) : BitVec 32 :=
  match access &&& GENERIC_READ != 0, access &&& GENERIC_WRITE != 0 with
  | true, true => 2
  | false, true => 1
  | _, _ => 0

/-- The flags for `open`; `none` for an unknown disposition. -/
def openFlags (access disp : BitVec 32) : Option (BitVec 32) :=
  if disp = CREATE_NEW then some (accessFlags access ||| (0o100 ||| 0o200))
  else if disp = CREATE_ALWAYS then some (accessFlags access ||| (0o100 ||| 0o1000))
  else if disp = OPEN_EXISTING then some (accessFlags access)
  else if disp = OPEN_ALWAYS then some (accessFlags access ||| 0o100)
  else if disp = TRUNCATE_EXISTING then some (accessFlags access ||| 0o1000)
  else none

/-- `open_file`.  A path with a zero in it is no C string. -/
def openFile (files : Files) (path : String) (access disp : BitVec 32) (fd : Fd) :
    Files × Option (BitVec 32) :=
  let posix := translatePath path
  match openFlags access disp with
  | none => (files, none)
  | some flags =>
    if '\x00' ∈ posix.toList then (files, none)
    else
      let (files, fd) := hostOpen files posix flags fd
      if fd.slt 0 then (files, none) else (files, some fd)

end Quantum.Kernel32.File
